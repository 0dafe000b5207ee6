import EchoIocp.Lib.Machine
import EchoIocp.ClientDataSet

namespace EchoIocp

namespace ClientDataSet

/-- The contexts handed to `WSASend`. -/
def submitted (calls : List Call) : List (Option CustomOverlapped) :=
  calls.filterMap fun | .wsaSend _ context => some context | _ => none

/-- The packets `ReceiveInternalWork` processed. -/
def processed (calls : List Call) : List (Option DataPacket) :=
  calls.filterMap fun | .processed packet => some packet | _ => none

@[simp] theorem submitted_append (es es' : List Call) :
    submitted (es ++ es') = submitted es ++ submitted es' := List.filterMap_append

@[simp] theorem processed_append (es es' : List Call) :
    processed (es ++ es') = processed es ++ processed es' := List.filterMap_append

end ClientDataSet

open ClientDataSet

/-- A slot and the number of its `WSASend`s that have not completed. -/
structure Slot where
  client : ClientDataSet
  outstanding : ℕ

namespace Slot

inductive Act
  | tryAccept (errorCode : ℤ)
  | feedBackAccept (feedback : Bool)
  | feedBackReceive (dataSize : ℕ) (messageBuff : List UInt8)
  | sendRequest (dataSize : ℕ) (messageBuff : List UInt8)
  | feedBackSend

def perform (c : ClientDataSet) : Act → ClientDataSet × List Call
  | .tryAccept errorCode => ((c.tryAccept errorCode).1, (c.tryAccept errorCode).2.1)
  | .feedBackAccept feedback => c.feedBackAccept feedback
  | .feedBackReceive dataSize messageBuff => c.feedBackReceive dataSize messageBuff
  | .sendRequest dataSize messageBuff =>
    ((c.sendRequest dataSize (.message messageBuff)).1,
      (c.sendRequest dataSize (.message messageBuff)).2.1)
  | .feedBackSend => c.feedBackSend

/-- `FeedBack_Send` is called for a send that has completed, the rest at any time. -/
def machine : Machine Slot Act Call where
  step s
    | .feedBackSend =>
      match s.outstanding with
      | 0 => none
      | k + 1 =>
        let r := perform s.client .feedBackSend
        some (⟨r.1, k + (submitted r.2).length⟩, r.2)
    | a =>
      let r := perform s.client a
      some (⟨r.1, s.outstanding + (submitted r.2).length⟩, r.2)

def start (memory : ClientDataSet) (id : ℤ) (clientSocketPtr : ℕ) : Slot :=
  ⟨.new memory id clientSocketPtr, 0⟩

/-- A connection of the slot: accepted once, then receives of at most `MAX_SOCK_RECVBUF`
bytes, send requests and send completions. -/
def session (errorCode : ℤ) (rest : List Act) : List Act :=
  .tryAccept errorCode :: .feedBackAccept true :: rest

def InSession : Act → Prop
  | .feedBackReceive dataSize messageBuff =>
    dataSize ≤ maxSockRecvBuf ∧ dataSize ≤ messageBuff.length
  | .sendRequest dataSize messageBuff => dataSize ≤ messageBuff.length
  | .feedBackSend => True
  | .tryAccept _ | .feedBackAccept _ => False

/-- Every connection goes on the slot as it would on a newly constructed one. -/
def StartsClean (s fresh : Slot) : Prop :=
  ∀ errorCode rest, (∀ a ∈ rest, InSession a) →
    ∀ p, machine.run fresh (session errorCode rest) = some p →
      ∃ p', machine.run s (session errorCode rest) = some p' ∧
        processed p'.2 = processed p.2 ∧ submitted p'.2 = submitted p.2

/-- Equal in everything a connection depends on; rings, contexts and sockets may differ. -/
structure Alike (c c' : ClientDataSet) : Prop where
  id : c.mID = c'.mID
  connected : c.mIsConnet = c'.mIsConnet
  residue : c.mReceiveBuffer = c'.mReceiveBuffer
  received : c.mReceiveDataQueue.Same c'.mReceiveDataQueue
  toSend : c.mSendDataQueue.Same c'.mSendDataQueue

def Agree (r r' : ClientDataSet × List Call) : Prop :=
  Alike r.1 r'.1 ∧ processed r.2 = processed r'.2 ∧ submitted r.2 = submitted r'.2

variable {c c' : ClientDataSet}

theorem Alike.receiveReady (h : Alike c c') :
    Agree (c.receiveReady.1, c.receiveReady.2.1) (c'.receiveReady.1, c'.receiveReady.2.1) := by
  simp only [ClientDataSet.receiveReady, h.connected]
  split_ifs
  · exact ⟨h, rfl, rfl⟩
  · exact ⟨⟨h.id, h.connected, h.residue, h.received, h.toSend⟩, rfl, rfl⟩

theorem Alike.tryAccept (h : Alike c c') (errorCode : ℤ) :
    Agree (perform c (.tryAccept errorCode)) (perform c' (.tryAccept errorCode)) := by
  simp only [perform, ClientDataSet.tryAccept, h.connected]
  split_ifs
  · exact ⟨h, rfl, rfl⟩
  · exact ⟨h, rfl, rfl⟩
  · exact ⟨⟨h.id, h.connected, h.residue, h.received, h.toSend⟩, rfl, rfl⟩

theorem Alike.feedBackAccept (h : Alike c c') (feedback : Bool) :
    Agree (perform c (.feedBackAccept feedback)) (perform c' (.feedBackAccept feedback)) := by
  have h₁ : Alike { c with mIsConnet := feedback } { c' with mIsConnet := feedback } :=
    ⟨h.id, rfl, h.residue, h.received, h.toSend⟩
  cases feedback with
  | false => exact ⟨h₁, rfl, rfl⟩
  | true => exact h₁.receiveReady

theorem Alike.cutPackets (h : Alike c c') (fuel : ℕ) :
    Alike (ClientDataSet.cutPackets fuel c).1 (ClientDataSet.cutPackets fuel c').1 := by
  induction fuel generalizing c c' with
  | zero => exact h
  | succ fuel ih =>
    simp only [ClientDataSet.cutPackets, h.residue]
    split_ifs
    · apply ih
      refine ⟨h.id, h.connected, ?_, ?_, h.toSend⟩
      · simp only [cutPacket, h.residue]
      · simp only [cutPacket, h.id, h.residue]
        exact h.received.push _
    · exact h

theorem Alike.drain (h : Alike c c') (fuel : ℕ) :
    Agree (ClientDataSet.drain fuel c) (ClientDataSet.drain fuel c') := by
  induction fuel generalizing c c' with
  | zero => exact ⟨h, rfl, rfl⟩
  | succ fuel ih =>
    simp only [ClientDataSet.drain, ← h.received.empty]
    split_ifs with he
    · exact ⟨h, rfl, rfl⟩
    · have hfront := h.received.front (by simpa using he)
      have hpop : Alike c.popReceived c'.popReceived :=
        ⟨h.id, h.connected, h.residue, h.received.pop, h.toSend⟩
      obtain ⟨h₁, h₂, h₃⟩ := ih hpop
      exact ⟨h₁, by simpa [processed, hfront] using h₂, by simpa [submitted] using h₃⟩

theorem Alike.gather (h : Alike c c') (dataSize : ℕ) (messageBuff : List UInt8) :
    Agree (c.gather dataSize messageBuff) (c'.gather dataSize messageBuff) := by
  have hgrow : Alike (c.growBy dataSize messageBuff) (c'.growBy dataSize messageBuff) :=
    ⟨h.id, h.connected, by simp only [growBy, h.residue], h.received, h.toSend⟩
  have hlen := congrArg List.length hgrow.residue
  simp only [ClientDataSet.gather, ← hlen]
  -- the fuel of the loop is the length of the buffer, the same on both sides
  exact (hgrow.cutPackets _).drain _

theorem Alike.feedBackReceive (h : Alike c c') (dataSize : ℕ) (messageBuff : List UInt8) :
    Agree (perform c (.feedBackReceive dataSize messageBuff))
      (perform c' (.feedBackReceive dataSize messageBuff)) := by
  simp only [perform, feedBackReceive_eq h.received.left, feedBackReceive_eq h.received.right]
  obtain ⟨ha, hp, hs⟩ := h.gather dataSize messageBuff
  obtain ⟨ha', hp', hs'⟩ := ha.receiveReady
  exact ⟨ha', by simpa only [processed_append, hp] using congrArg _ hp',
    by simpa only [submitted_append, hs] using congrArg _ hs'⟩

theorem Alike.sendInternalWork (h : Alike c c') (he : c.mSendDataQueue.empty = false) :
    processed c.sendInternalWork = processed c'.sendInternalWork ∧
      submitted c.sendInternalWork = submitted c'.sendInternalWork := by
  simp [ClientDataSet.sendInternalWork, processed, submitted, h.toSend.front he]

theorem Alike.sendRequest (h : Alike c c') (dataSize : ℕ) (messageBuff : List UInt8) :
    Agree (perform c (.sendRequest dataSize messageBuff))
      (perform c' (.sendRequest dataSize messageBuff)) := by
  let context := c'.newSendContext dataSize (.message messageBuff)
  have hctx : c.newSendContext dataSize (.message messageBuff) = context := by
    simp only [context, newSendContext, h.id]
  have hpush : Alike (c.pushSend context) (c'.pushSend context) :=
    ⟨h.id, h.connected, h.residue, h.received, h.toSend.push _⟩
  simp only [perform, ClientDataSet.sendRequest, h.connected, hctx, hpush.toSend.size]
  split_ifs with h₁ h₂
  · exact ⟨h, rfl, rfl⟩
  · have he : (c.pushSend context).mSendDataQueue.empty = false :=
      LockFreeCircleQueue.empty_of_size (by rw [hpush.toSend.size]; omega)
    exact ⟨hpush, hpush.sendInternalWork he⟩
  · exact ⟨hpush, rfl, rfl⟩

theorem Alike.feedBackSend (h : Alike c c') :
    Agree (perform c .feedBackSend) (perform c' .feedBackSend) := by
  have hpop : Alike c.popSend c'.popSend :=
    ⟨h.id, h.connected, h.residue, h.received, h.toSend.pop⟩
  simp only [perform, ClientDataSet.feedBackSend, ← hpop.toSend.empty]
  split_ifs with he
  · obtain ⟨hp, hs⟩ := hpop.sendInternalWork (by simpa using he)
    exact ⟨hpop, by simpa [processed] using hp, by simpa [submitted] using hs⟩
  · exact ⟨hpop, rfl, rfl⟩

theorem Alike.perform (h : Alike c c') (a : Act) :
    Agree (Slot.perform c a) (Slot.perform c' a) := by
  cases a with
  | tryAccept errorCode => exact h.tryAccept errorCode
  | feedBackAccept feedback => exact h.feedBackAccept feedback
  | feedBackReceive dataSize messageBuff => exact h.feedBackReceive dataSize messageBuff
  | sendRequest dataSize messageBuff => exact h.sendRequest dataSize messageBuff
  | feedBackSend => exact h.feedBackSend

/-- A step of one slot is a step of every alike slot with as many sends to complete. -/
theorem Alike.step {s s' t : Slot} {a : Act} {e : List Call} (h : Alike s.client s'.client)
    (ho : s.outstanding ≤ s'.outstanding) (hs : machine.step s a = some (t, e)) :
    ∃ t' e', machine.step s' a = some (t', e') ∧ Alike t.client t'.client ∧
      t.outstanding ≤ t'.outstanding ∧ processed e = processed e' ∧ submitted e = submitted e' := by
  obtain ⟨hal, hpr, hsu⟩ := h.perform a
  have hlen := congrArg List.length hsu
  cases a with
  | feedBackSend =>
    obtain ⟨c, k⟩ := s
    obtain ⟨c', k'⟩ := s'
    cases k with
    | zero => simp [machine] at hs
    | succ k =>
      cases k' with
      | zero => exact absurd ho (by simp)
      | succ k' =>
        simp only [machine, Option.some.injEq, Prod.mk.injEq] at hs
        obtain ⟨rfl, rfl⟩ := hs
        refine ⟨_, _, rfl, hal, ?_, hpr, hsu⟩
        simp only at ho hlen ⊢
        omega
  | tryAccept | feedBackAccept | feedBackReceive | sendRequest =>
    simp only [machine, Option.some.injEq, Prod.mk.injEq] at hs
    obtain ⟨rfl, rfl⟩ := hs
    refine ⟨_, _, rfl, hal, ?_, hpr, hsu⟩
    simp only at hlen ⊢
    omega

theorem Alike.run {s s' : Slot} {as : List Act} {p : Slot × List Call}
    (h : Alike s.client s'.client) (ho : s.outstanding ≤ s'.outstanding)
    (hr : machine.run s as = some p) :
    ∃ p', machine.run s' as = some p' ∧ processed p'.2 = processed p.2 ∧
      submitted p'.2 = submitted p.2 := by
  obtain ⟨t, es⟩ := p
  -- `Alike` is kept call by call, and the second slot never has fewer sends to complete
  induction as generalizing s s' es with
  | nil =>
    obtain ⟨rfl, rfl⟩ : s = t ∧ [] = es := by simpa using hr
    exact ⟨_, rfl, rfl, rfl⟩
  | cons a as ih =>
    obtain ⟨s₁, e, es₁, hs, hr₁, rfl⟩ := (Machine.run_cons _).mp hr
    obtain ⟨s₁', e', hs', hal, ho', hpr, hsu⟩ := h.step ho hs
    obtain ⟨⟨t', es₁'⟩, hr', hpr', hsu'⟩ := ih hal ho' es₁ hr₁
    refine ⟨(t', e' ++ es₁'), (Machine.run_cons _).mpr ⟨s₁', e', es₁', hs', hr', rfl⟩, ?_, ?_⟩
    · simpa only [processed_append, hpr] using congrArg _ hpr'
    · simpa only [submitted_append, hsu] using congrArg _ hsu'

/-- A slot between two calls: nothing received waits, at most one frame of bytes is held back. -/
structure Rested (id : ℤ) (c : ClientDataSet) : Prop where
  id_eq : c.mID = id
  received : c.mReceiveDataQueue.InRange
  drained : c.mReceiveDataQueue.contents = []
  residue : c.mReceiveBuffer.length ≤ mBufferSize
  toSend : c.mSendDataQueue.InRange

variable {id : ℤ}

theorem Rested.receiveReady (h : Rested id c) : Rested id c.receiveReady.1 := by
  simp only [ClientDataSet.receiveReady]
  split_ifs
  · exact h
  · exact ⟨h.id_eq, h.received, h.drained, h.residue, h.toSend⟩

theorem Rested.gather (h : Rested id c) (dataSize : ℕ) (messageBuff : List UInt8) :
    Rested id (c.gather dataSize messageBuff).1 := by
  obtain ⟨hr, hd, hb⟩ := c.gather_spec dataSize messageBuff h.received
  refine ⟨?_, hr, hd, hb, ?_⟩
  · rw [gather_frame]
    exact h.id_eq
  · rw [gather_frame]
    exact h.toSend

theorem Rested.perform (h : Rested id c) (a : Act) : Rested id (Slot.perform c a).1 := by
  cases a with
  | tryAccept errorCode =>
    simp only [Slot.perform, ClientDataSet.tryAccept]
    split_ifs <;> exact ⟨h.id_eq, h.received, h.drained, h.residue, h.toSend⟩
  | feedBackAccept feedback =>
    have h₁ : Rested id (c.setConnet feedback) :=
      ⟨h.id_eq, h.received, h.drained, h.residue, h.toSend⟩
    cases feedback with
    | false => exact h₁
    | true => exact h₁.receiveReady
  | feedBackReceive dataSize messageBuff =>
    simp only [Slot.perform, feedBackReceive_eq h.received]
    exact (h.gather dataSize messageBuff).receiveReady
  | sendRequest dataSize messageBuff =>
    have h₁ (context : CustomOverlapped) : Rested id (c.pushSend context) :=
      ⟨h.id_eq, h.received, h.drained, h.residue, LockFreeCircleQueue.push_inRange h.toSend _⟩
    simp only [Slot.perform, ClientDataSet.sendRequest]
    split_ifs
    · exact h
    · exact h₁ _
    · exact h₁ _
  | feedBackSend =>
    have h₁ : Rested id c.popSend :=
      ⟨h.id_eq, h.received, h.drained, h.residue, LockFreeCircleQueue.pop_inRange h.toSend⟩
    simp only [Slot.perform, ClientDataSet.feedBackSend]
    split_ifs <;> exact h₁

theorem step_client {s s' : Slot} {a : Act} {e : List Call} (hs : machine.step s a = some (s', e)) :
    s'.client = (Slot.perform s.client a).1 ∧ e = (Slot.perform s.client a).2 := by
  cases a with
  | feedBackSend =>
    obtain ⟨c, k⟩ := s
    cases k with
    | zero => simp [machine] at hs
    | succ k =>
      simp only [machine, Option.some.injEq, Prod.mk.injEq] at hs
      obtain ⟨rfl, rfl⟩ := hs
      exact ⟨rfl, rfl⟩
  | tryAccept | feedBackAccept | feedBackReceive | sendRequest =>
    simp only [machine, Option.some.injEq, Prod.mk.injEq] at hs
    obtain ⟨rfl, rfl⟩ := hs
    exact ⟨rfl, rfl⟩

theorem rested_of_run {memory : ClientDataSet} {socket : ℕ} {as : List Act} {s : Slot}
    {es : List Call} (h : machine.run (start memory id socket) as = some (s, es)) :
    Rested id s.client := by
  have h0 : Rested id (start memory id socket).client :=
    ⟨rfl, LockFreeCircleQueue.new_inRange _, LockFreeCircleQueue.new_contents _, Nat.zero_le _,
      LockFreeCircleQueue.new_inRange _⟩
  have hal : machine.Along (start memory id socket) as fun _ s => Rested id s.client :=
    Machine.along_of_step h0 fun es s₁ a s₂ e hI hs => by
      rw [(step_client hs).1]
      exact hI.perform a
  exact hal.last h

def armed (c : ClientDataSet) : ClientDataSet :=
  (c.fillAcceptContext.setConnet true).fillReceiveContext

theorem step_eq {s : Slot} {a : Act} (ha : a ≠ .feedBackSend) : machine.step s a =
    some (⟨(Slot.perform s.client a).1,
      s.outstanding + (submitted (Slot.perform s.client a).2).length⟩,
      (Slot.perform s.client a).2) := by
  cases a with
  | feedBackSend => exact absurd rfl ha
  | tryAccept | feedBackAccept | feedBackReceive | sendRequest => rfl

/-- A session of one call other than `FeedBack_Send` shows what the call shows once accepted. -/
theorem run_session {s : Slot} {a : Act} (hc : s.client.mIsConnet = false)
    (ha : a ≠ .feedBackSend) : ∃ p, machine.run s (session 0 [a]) = some p ∧
      processed p.2 = processed (Slot.perform (armed s.client) a).2 ∧
      submitted p.2 = submitted (Slot.perform (armed s.client) a).2 := by
  have hp : Slot.perform s.client (.tryAccept 0) =
      (s.client.fillAcceptContext, [.acceptEx s.client.fillAcceptContext.mAcceptContext]) := by
    simp [Slot.perform, ClientDataSet.tryAccept, hc]
  have hq : Slot.perform s.client.fillAcceptContext (.feedBackAccept true) =
      (armed s.client, [.wsaRecv (armed s.client).mReceiveContext.wsabuf
        (armed s.client).mReceiveContext]) := rfl
  have h₁ := step_eq (s := s) (a := .tryAccept 0) (by simp)
  simp only [hp] at h₁
  have h₂ (k : ℕ) := step_eq (s := ⟨s.client.fillAcceptContext, k⟩) (a := .feedBackAccept true)
    (by simp)
  simp only [hq] at h₂
  have hrun := (Machine.run_cons _).mpr ⟨_, _, _, h₁, (Machine.run_cons _).mpr ⟨_, _, _, h₂ _,
    (Machine.run_cons _).mpr ⟨_, _, _, step_eq ha, Machine.run_nil _, rfl⟩, rfl⟩, rfl⟩
  refine ⟨_, hrun, ?_, ?_⟩
  · simp [processed]
  · simp [submitted]

theorem processed_of_short (h : Rested id c) {n : ℕ} {m : List UInt8}
    (hlen : (c.growBy n m).mReceiveBuffer.length ≤ mBufferSize) :
    processed (c.feedBackReceive n m).2 = [] := by
  have hcut (fuel : ℕ) : (ClientDataSet.cutPackets fuel (c.growBy n m)).1 = c.growBy n m := by
    cases fuel with
    | zero => rfl
    | succ fuel => simp only [ClientDataSet.cutPackets, if_neg (Nat.not_lt.mpr hlen)]
  have hempty : (c.growBy n m).mReceiveDataQueue.empty = true :=
    (LockFreeCircleQueue.empty_iff h.received).mpr h.drained
  simp only [ClientDataSet.feedBackReceive, hcut, hempty, if_true, ClientDataSet.receiveReady]
  split_ifs <;> rfl

theorem processed_of_long (h : Rested id c) {n : ℕ} {m : List UInt8}
    (hlen : mBufferSize < (c.growBy n m).mReceiveBuffer.length) :
    processed (c.feedBackReceive n m).2 ≠ [] := by
  obtain ⟨k, hk⟩ := Nat.exists_eq_succ_of_ne_zero (Nat.ne_of_gt (Nat.zero_lt_of_lt hlen))
  have hroom : (c.growBy n m).mReceiveDataQueue.contents.length + 1 < maxQueueSize := by
    rw [show (c.growBy n m).mReceiveDataQueue.contents = [] from h.drained]
    decide
  obtain ⟨-, hin, hcont⟩ := LockFreeCircleQueue.push_of_room (d := some
    ⟨(c.growBy n m).mID, (c.growBy n m).mReceiveBuffer.take mBufferSize, mBufferSize⟩)
    h.received hroom
  have hpre := cutPackets_prefix (c := (c.growBy n m).cutPacket.1) k hin
  rw [show (c.growBy n m).cutPacket.1.mReceiveDataQueue.contents = [] ++ [_] from
    h.drained ▸ hcont] at hpre
  have hcut : (ClientDataSet.cutPackets (k + 1) (c.growBy n m)).1 =
      (ClientDataSet.cutPackets k (c.growBy n m).cutPacket.1).1 := by
    simp only [ClientDataSet.cutPackets, if_pos hlen]
  have hin' := cutPackets_inRange (c := c.growBy n m) (k + 1) h.received
  have hd := (drain_spec hin' (Nat.le_of_lt (LockFreeCircleQueue.length_lt hin'))).2.2
  rw [feedBackReceive_eq h.received]
  simp only [ClientDataSet.gather, hk, Nat.succ_eq_add_one, hd, processed_append]
  obtain ⟨t, ht⟩ := hpre
  rw [hcut, ← ht]
  simp [processed]

theorem submitted_of_empty (hr : c.mSendDataQueue.InRange) (hc : c.mIsConnet = true)
    (hq : c.mSendDataQueue.contents = []) {n : ℕ} {m : List UInt8} :
    submitted (Slot.perform c (.sendRequest n m)).2 ≠ [] := by
  have hpush := LockFreeCircleQueue.push_of_room (d := some (c.newSendContext n (.message m))) hr
    (by rw [hq]; decide)
  have hsize : (c.pushSend (c.newSendContext n (.message m))).mSendDataQueue.size = 1 := by
    rw [LockFreeCircleQueue.size_eq]
    simp only [ClientDataSet.pushSend, hpush.2.2, hq, List.nil_append, List.length_singleton]
  simp [Slot.perform, ClientDataSet.sendRequest, hc, hsize, ClientDataSet.sendInternalWork,
    submitted]

theorem submitted_of_queued (hr : c.mSendDataQueue.InRange) (hq : c.mSendDataQueue.contents ≠ [])
    {n : ℕ} {m : List UInt8} : submitted (Slot.perform c (.sendRequest n m)).2 = [] := by
  have hpos := List.length_pos_iff.mpr hq
  have hsize : (c.pushSend (c.newSendContext n (.message m))).mSendDataQueue.size ≠ 1 := by
    rw [LockFreeCircleQueue.size_eq]
    by_cases hf : c.mSendDataQueue.contents.length + 1 = maxQueueSize
    · simp only [ClientDataSet.pushSend, LockFreeCircleQueue.push_of_full hr hf]
      simp only [maxQueueSize] at hf
      omega
    · have hlt := LockFreeCircleQueue.length_lt hr
      have hpush := LockFreeCircleQueue.push_of_room (d := some (c.newSendContext n (.message m))) hr
        (by omega)
      simp only [ClientDataSet.pushSend, hpush.2.2, List.length_append, List.length_singleton]
      omega
  simp only [Slot.perform, ClientDataSet.sendRequest, if_neg hsize]
  split_ifs <;> rfl

theorem Rested.armed (h : Rested id c) : Rested id (armed c) :=
  ⟨h.id_eq, h.received, h.drained, h.residue, h.toSend⟩

theorem fresh_rested (memory : ClientDataSet) (id : ℤ) (socket : ℕ) :
    Rested id (start memory id socket).client :=
  rested_of_run (Machine.run_nil _)

/-- One frame of bytes gets a packet out of a residue and none out of a new slot. -/
theorem residue_shows {s : Slot} {memory : ClientDataSet} {socket : ℕ} (h : Rested id s.client)
    (hc : s.client.mIsConnet = false) (hclean : StartsClean s (start memory id socket)) :
    s.client.mReceiveBuffer = [] := by
  by_contra hres
  have hpos := List.length_pos_iff.mpr hres
  -- the loop cuts a packet only out of more than `mBufferSize` bytes, so the residue decides
  let frame := List.replicate mBufferSize (0 : UInt8)
  have hne : Act.feedBackReceive mBufferSize frame ≠ .feedBackSend := by simp
  have hgrow (c' : ClientDataSet) : (c'.growBy mBufferSize frame).mReceiveBuffer.length =
      c'.mReceiveBuffer.length + mBufferSize := by
    simp [ClientDataSet.growBy, frame]
  obtain ⟨p, hp, hproc, -⟩ := run_session (s := start memory id socket) rfl hne
  obtain ⟨p', hp', hproc', -⟩ := hclean 0 [.feedBackReceive mBufferSize frame]
    (by simp [InSession, frame, mBufferSize, maxSockRecvBuf]) p hp
  obtain ⟨p'', hp'', hproc'', -⟩ := run_session hc hne
  obtain rfl : p' = p'' := Option.some.inj (hp'.symm.trans hp'')
  rw [hproc, hproc''] at hproc'
  have hshort := processed_of_short (n := mBufferSize) (m := frame)
    (fresh_rested memory id socket).armed (Nat.le_of_eq (hgrow _))
  have hlong := processed_of_long (n := mBufferSize) (m := frame) h.armed
    (by rw [hgrow, show (armed s.client).mReceiveBuffer = s.client.mReceiveBuffer from rfl]; omega)
  exact hlong (hproc'.trans hshort)

/-- One message is sent at once by a new slot and waits behind a queued context. -/
theorem queued_shows {s : Slot} {memory : ClientDataSet} {socket : ℕ} (h : Rested id s.client)
    (hc : s.client.mIsConnet = false) (hclean : StartsClean s (start memory id socket)) :
    s.client.mSendDataQueue.contents = [] := by
  by_contra hq
  have hne : Act.sendRequest 1 [0] ≠ .feedBackSend := by simp
  obtain ⟨p, hp, -, hsub⟩ := run_session (s := start memory id socket) rfl hne
  obtain ⟨p', hp', -, hsub'⟩ := hclean 0 [.sendRequest 1 [0]] (by simp [InSession]) p hp
  obtain ⟨p'', hp'', -, hsub''⟩ := run_session hc hne
  obtain rfl : p' = p'' := Option.some.inj (hp'.symm.trans hp'')
  rw [hsub, hsub'', submitted_of_queued h.armed.toSend hq] at hsub'
  exact submitted_of_empty (fresh_rested memory id socket).armed.toSend rfl
    (LockFreeCircleQueue.new_contents _) hsub'.symm

/-- After a connection ends, the next one starts clean exactly when the slot holds back no
received byte and no context to send. -/
theorem startsClean_iff (memory memory' : ClientDataSet) (id : ℤ) (socket socket' : ℕ)
    (history : List Act) (s : Slot) (es : List Call)
    (h : machine.run (start memory id socket) (history ++ [.feedBackAccept false]) =
      some (s, es)) :
    StartsClean s (start memory' id socket') ↔
      s.client.mReceiveBuffer = [] ∧ s.client.mSendDataQueue.contents = [] := by
  have hrest := rested_of_run h
  obtain ⟨s₁, e₁, e₂, -, hs, -⟩ := (Machine.run_concat _).mp h
  have hc : s.client.mIsConnet = false := by
    rw [(step_client hs).1]
    rfl
  constructor
  · intro hclean
    exact ⟨residue_shows hrest hc hclean, queued_shows hrest hc hclean⟩
  -- rings and sockets differ from those of a new slot, which `Alike` does not look at
  · rintro ⟨hres, hq⟩ errorCode rest - p hp
    have hf := fresh_rested memory' id socket'
    have hal : Alike (start memory' id socket').client s.client := by
      refine ⟨hf.id_eq.trans hrest.id_eq.symm, hc.symm, hres.symm, ?_, ?_⟩
      · exact ⟨hf.received, hrest.received, hf.drained.trans hrest.drained.symm⟩
      · exact ⟨hf.toSend, hrest.toSend, (LockFreeCircleQueue.new_contents _).trans hq.symm⟩
    exact hal.run (Nat.zero_le _) hp

/-- Three bytes and a message fully sent, then closed: the bytes stay, the queue is empty. -/
theorem startsClean_iff_three_bytes :
    ∃ s es, machine.run (start default 0 0) ([.feedBackAccept true, .feedBackReceive 3 [1, 2, 3],
        .sendRequest 1 [7], .feedBackSend] ++ [.feedBackAccept false]) = some (s, es) ∧
      (StartsClean s (start default 0 1) ↔
        s.client.mReceiveBuffer = [] ∧ s.client.mSendDataQueue.contents = []) :=
  ⟨_, _, rfl, startsClean_iff default default 0 0 1 [.feedBackAccept true,
    .feedBackReceive 3 [1, 2, 3], .sendRequest 1 [7], .feedBackSend] _ _ rfl⟩

/-- Three bytes of one client come out in the first packet of the next. -/
theorem residue_reaches_next_client :
    ∃ s es, machine.run (start default 0 0)
        [.feedBackAccept true, .feedBackReceive 3 [1, 2, 3], .feedBackAccept false] =
        some (s, es) ∧
      ¬ StartsClean s (start default 0 0) := by
  refine ⟨_, _, rfl, fun hclean => ?_⟩
  obtain ⟨p', hp', hproc, -⟩ := hclean 0 [.feedBackReceive 10 (List.replicate 10 0)]
    (by simp [InSession, maxSockRecvBuf]) _ rfl
  have hnext : processed p'.2 = [some ⟨0, [1, 2, 3, 0, 0, 0, 0, 0, 0, 0], 10⟩] := by
    rw [← Option.some.inj hp']
    rfl
  rw [hnext] at hproc
  exact absurd hproc (by decide)

end Slot

end EchoIocp
