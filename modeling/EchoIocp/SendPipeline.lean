import EchoIocp.Alive
import EchoIocp.Session

namespace EchoIocp

open LockFreeCircleQueue ClientDataSet EchoServer

namespace ClientDataSet

variable {c : ClientDataSet}

theorem tryAcceptStep_toSend (c : ClientDataSet) (errorCode : ℤ) (pc : TryAcceptPc) :
    (c.tryAcceptStep errorCode pc).1.mSendDataQueue = c.mSendDataQueue := by
  cases pc with
  | guard =>
    simp only [tryAcceptStep]
    split_ifs <;> rfl
  | fill | post => rfl

theorem receiveReadyStep_toSend (c : ClientDataSet) (pc : ReceiveReadyPc) :
    (c.receiveReadyStep pc).1.mSendDataQueue = c.mSendDataQueue := by
  cases pc with
  | guard =>
    simp only [receiveReadyStep]
    split_ifs <;> rfl
  | fill | post => rfl

theorem gather_toSend (c : ClientDataSet) (dataSize : ℕ) (messageBuff : List UInt8) :
    (c.gather dataSize messageBuff).1.mSendDataQueue = c.mSendDataQueue := by
  rw [gather_frame]

theorem sendRequest_spec (hr : c.mSendDataQueue.InRange) (hc : c.mIsConnet = true)
    (hroom : c.mSendDataQueue.contents.length + 1 < maxQueueSize) (dataSize : ℕ)
    (messageBuff : BufferPtr) :
    (c.sendRequest dataSize messageBuff).1.mSendDataQueue.contents =
        c.mSendDataQueue.contents ++ [some (c.newSendContext dataSize messageBuff)] ∧
      submitted (c.sendRequest dataSize messageBuff).2.1 =
        if c.mSendDataQueue.contents = [] then [some (c.newSendContext dataSize messageBuff)]
        else [] := by
  obtain ⟨-, hr', hpush⟩ :=
    push_of_room (d := some (c.newSendContext dataSize messageBuff)) hr hroom
  have hsize : (c.pushSend (c.newSendContext dataSize messageBuff)).mSendDataQueue.size = 1 ↔
      c.mSendDataQueue.contents = [] := by
    rw [size_eq, pushSend, hpush, List.length_append, List.length_singleton]
    rw [← List.length_eq_zero_iff]
    omega
  have hfront (hq : c.mSendDataQueue.contents = []) :
      (c.pushSend (c.newSendContext dataSize messageBuff)).mSendDataQueue.front =
        some (c.newSendContext dataSize messageBuff) := by
    rw [hq, List.nil_append] at hpush
    exact front_of_cons hr' hpush
  simp only [sendRequest, hc, Bool.not_true, Bool.false_eq_true, if_false, hsize]
  split_ifs with hq
  · exact ⟨hpush, by simp [submitted, sendInternalWork, hfront hq]⟩
  · exact ⟨hpush, rfl⟩

/-- `SendRequest` takes nothing out of `mSendDataQueue`. -/
theorem sendRequest_grows (hr : c.mSendDataQueue.InRange) (dataSize : ℕ)
    (messageBuff : BufferPtr) : c.mSendDataQueue.contents.length ≤
    (c.sendRequest dataSize messageBuff).1.mSendDataQueue.contents.length := by
  simp only [sendRequest]
  split_ifs
  · exact Nat.le_refl _
  all_goals
    apply List.IsPrefix.length_le
    exact push_prefix hr _

end ClientDataSet

namespace EchoServer

/-- Nothing was queued for client `i` to send, and a slot that was added has nothing to send. -/
structure Quiet (i : ℕ) (s s' : EchoServer) : Prop where
  le : s.allocated ≤ s'.allocated
  kept : i < s.allocated → (s'.heap i).mSendDataQueue = (s.heap i).mSendDataQueue
  fresh : s.allocated ≤ i → i < s'.allocated → (s'.heap i).mSendDataQueue.contents = []

variable {i target : ℕ} {s s' : EchoServer} {c : ClientDataSet}

theorem Quiet.of_heap (ha : s'.allocated = s.allocated) (hh : s'.heap = s.heap) : Quiet i s s' :=
  ⟨ha.ge, fun _ => by rw [hh], fun h h' => absurd h' (by omega)⟩

theorem Quiet.refl (i : ℕ) (s : EchoServer) : Quiet i s s := .of_heap rfl rfl

theorem Quiet.trans {s'' : EchoServer} (h : Quiet i s s') (h' : Quiet i s' s'') :
    Quiet i s s'' := by
  refine ⟨h.le.trans h'.le, fun hi => ?_, fun hi hi'' => ?_⟩
  · rw [h'.kept (Nat.lt_of_lt_of_le hi h.le), h.kept hi]
  · by_cases hi' : i < s'.allocated
    · rw [h'.kept hi']
      exact h.fresh hi hi'
    · exact h'.fresh (Nat.le_of_not_lt hi') hi''

theorem Quiet.assign (h : target = i → c.mSendDataQueue = (s.heap target).mSendDataQueue) :
    Quiet i s (s.assign target c) := by
  refine ⟨Nat.le_refl _, fun _ => ?_, fun h h' => absurd h' (Nat.not_lt.mpr h)⟩
  simp only [EchoServer.assign, Function.update_apply]
  split_ifs with hi
  · subst hi
    exact h rfl
  · rfl

theorem Quiet.createClient (i : ℕ) (s : EchoServer) (id : ℤ) : Quiet i s (s.createClient id) := by
  refine ⟨Nat.le_succ _, fun hi => ?_, fun h h' => ?_⟩
  · simp only [EchoServer.createClient, Function.update_of_ne hi.ne]
  · obtain rfl : i = s.allocated := Nat.le_antisymm (Nat.le_of_lt_succ h') h
    simp only [EchoServer.createClient, Function.update_self]
    exact new_contents _

theorem prepareStep_quiet (i count : ℕ) (s : EchoServer) (errorCode : ℤ) (pc : PreparePc) :
    Quiet i s (s.prepareStep count errorCode pc).1 := by
  cases pc with
  | create currentId limit =>
    simp only [prepareStep]
    split_ifs
    · exact .createClient i s currentId
    · exact .refl i s
  | next currentId rest =>
    cases rest with
    | nil => exact .refl i s
    | cons id rest =>
      simp only [prepareStep]
      split <;> exact .refl i s
  | tryAccept currentId target pc rest =>
    exact .assign fun _ => tryAcceptStep_toSend (s.heap target) errorCode pc
  | loadId | storeId | loadMax | storeMax => exact .of_heap rfl rfl

theorem prepareSocket_quiet (i count : ℕ) (errorCode : ℤ → ℤ) (s : EchoServer) :
    Quiet i s (s.prepareSocket count errorCode).1 := by
  obtain ⟨answers, hr⟩ := prepareSocket_alone errorCode s
  refine Machine.run_induction _ (P := fun _ _ p => Quiet i s p.1) (.refl i s) ?_ hr
  intro _ _ p answer p' _ _ h hs
  simp only [alone, Option.map_eq_some_iff, Prod.mk.injEq] at hs
  obtain ⟨pc, -, rfl, -⟩ := hs
  exact h.trans (prepareStep_quiet i count p.1 answer pc)

theorem acceptStep_quiet (i : ℕ) (s : EchoServer) (errorCode : ℤ) (pc : AcceptPc) :
    Quiet i s (s.acceptStep errorCode pc).1 := by
  cases pc with
  | feedBack target => exact .assign fun _ => rfl
  | ready target pc => exact .assign fun _ => receiveReadyStep_toSend (s.heap target) pc
  | isEmpty currentMax =>
    simp only [acceptStep]
    split_ifs <;> exact .refl i s
  | prepare pc => exact prepareStep_quiet i clientIncrease s errorCode pc
  | finder | loadCount | storeCount | loadMax => exact .of_heap rfl rfl

theorem receiveStep_quiet (i : ℕ) (s : EchoServer) (errorCode : ℤ) (pc : ReceivePc) :
    Quiet i s (s.receiveStep errorCode pc).1 := by
  cases pc with
  | finder packet => exact .refl i s
  | gather target packet => exact .assign fun _ => gather_toSend (s.heap target) _ _
  | ready target pc => exact .assign fun _ => receiveReadyStep_toSend (s.heap target) pc

theorem disconnectStep_quiet (i : ℕ) (s : EchoServer) (errorCode : ℤ) (pc : DisconnectPc) :
    Quiet i s (s.disconnectStep errorCode pc).1 := by
  cases pc with
  | tryAccept target pc => exact .assign fun _ => tryAcceptStep_toSend (s.heap target) errorCode pc
  | finder | loadCount | storeCount => exact .of_heap rfl rfl

end EchoServer

namespace EchoSystem

/-- A request of the application, a completion handed to `EchoServer::Send`, a context given to
`WSASend`. -/
inductive SendEvent
  | requested (target : ℕ) (context : CustomOverlapped)
  | completed (target : ℕ)
  | passed (target : ℕ) (context : Option CustomOverlapped)

def passing (target : ℕ) (calls : List Call) : List SendEvent :=
  (submitted calls).map (.passed target)

def sendEvents (s : EchoSystem) : Act → List SendEvent
  | .request clientID dataSize messageBuff _ =>
    (s.server.clientFinder clientID).elim [] fun target =>
      let c := s.server.heap target
      (if c.mIsConnet
        then [.requested target (c.newSendContext dataSize (.message messageBuff))] else []) ++
          passing target (c.sendRequest dataSize (.message messageBuff)).2.1
  | .send _ =>
    match s.sendThread with
    | some (.request target packet) =>
      .completed target :: passing target
        ((s.server.heap target).sendRequest packet.dataSize packet.bufferPtr).2.1
    | _ => []
  | _ => []

/-- The server, observed at its sends. -/
def pipeline : Machine EchoSystem Act SendEvent := machine.observing sendEvents

def requestedOf (i : ℕ) (es : List SendEvent) : List CustomOverlapped :=
  es.filterMap fun
    | .requested target context => if target = i then some context else none
    | _ => none

def completedOf (i : ℕ) (es : List SendEvent) : ℕ :=
  es.countP fun
    | .completed target => target = i
    | _ => false

def passedOf (i : ℕ) (es : List SendEvent) : List (Option CustomOverlapped) :=
  es.filterMap fun
    | .passed target context => if target = i then some context else none
    | _ => none

/-- `mSendDataQueue` holds the requests not completed, and of all requests one more than are
completed was given to `WSASend`, each once and in order. -/
structure Drains (i : ℕ) (es : List SendEvent) (s : EchoSystem) : Prop where
  size : (s.server.heap i).mSendDataQueue.size + completedOf i es = (requestedOf i es).length
  passed : passedOf i es = ((requestedOf i es).take (completedOf i es + 1)).map some

/-- The send thread hands a completion of client `i` to `SendRequest`. -/
def Answers (i : ℕ) (s : EchoSystem) : Act → Prop
  | .send _ => ∃ packet, s.sendThread = some (.request i packet)
  | _ => False

section events

variable (i target : ℕ) (context : CustomOverlapped) (es es' : List SendEvent)

@[simp] theorem requestedOf_nil : requestedOf i [] = [] := rfl

@[simp] theorem completedOf_nil : completedOf i [] = 0 := rfl

@[simp] theorem passedOf_nil : passedOf i [] = [] := rfl

@[simp] theorem requestedOf_requested : requestedOf i (.requested target context :: es) =
    (if target = i then [context] else []) ++ requestedOf i es := by
  by_cases h : target = i <;> simp [requestedOf, h]

@[simp] theorem completedOf_requested :
    completedOf i (.requested target context :: es) = completedOf i es := rfl

@[simp] theorem passedOf_requested :
    passedOf i (.requested target context :: es) = passedOf i es := rfl

@[simp] theorem requestedOf_completed :
    requestedOf i (.completed target :: es) = requestedOf i es := rfl

@[simp] theorem completedOf_completed : completedOf i (.completed target :: es) =
    (if target = i then 1 else 0) + completedOf i es := by
  unfold completedOf
  rw [List.countP_cons, Nat.add_comm]
  simp

@[simp] theorem passedOf_completed :
    passedOf i (.completed target :: es) = passedOf i es := rfl

@[simp] theorem requestedOf_append :
    requestedOf i (es ++ es') = requestedOf i es ++ requestedOf i es' := List.filterMap_append

@[simp] theorem completedOf_append :
    completedOf i (es ++ es') = completedOf i es + completedOf i es' := List.countP_append

@[simp] theorem passedOf_append :
    passedOf i (es ++ es') = passedOf i es ++ passedOf i es' := List.filterMap_append

@[simp] theorem requestedOf_passing (target : ℕ) (calls : List Call) :
    requestedOf i (passing target calls) = [] := by
  simp [requestedOf, passing]

@[simp] theorem completedOf_passing (target : ℕ) (calls : List Call) :
    completedOf i (passing target calls) = 0 := by
  simp [completedOf, passing, List.countP_eq_zero]

theorem passedOf_passing (target : ℕ) (calls : List Call) :
    passedOf i (passing target calls) = if target = i then submitted calls else [] := by
  simp only [passedOf, passing, List.filterMap_map]
  split_ifs with h <;> simp [h]

end events

variable {s s' : EchoSystem} {a : Act} {out : List Event} {i : ℕ}

/-- The step is a `SendRequest` of client `i`. -/
def Concerns (i : ℕ) (s : EchoSystem) (a : Act) : Prop :=
  s.Answers i a ∨ ∃ clientID dataSize messageBuff taken,
    a = .request clientID dataSize messageBuff taken ∧ s.server.clientFinder clientID = some i

theorem step_quiet (hs : machine.step s a = some (s', out)) (hc : ¬ s.Concerns i a) :
    Quiet i s.server s'.server := by
  cases effect_of_step hs with
  | complete op result bytes =>
    by_cases hop : op.overlapped = .receive
    · simp only [if_pos hop]
      exact .assign fun _ => rfl
    · simp only [if_neg hop]
      exact .refl i _
  | accept errorCode taken pc => exact acceptStep_quiet i s.server errorCode pc
  | receive taken pc => exact receiveStep_quiet i s.server 0 pc
  | disconnect errorCode taken pc => exact disconnectStep_quiet i s.server errorCode pc
  | send taken pc hpc =>
    cases pc with
    | finder packet => exact .refl i _
    | request target packet =>
      apply Quiet.assign
      rintro rfl
      exact absurd (.inl ⟨packet, hpc⟩) hc
  | request clientID dataSize messageBuff taken target hf =>
    apply Quiet.assign
    rintro rfl
    exact absurd (.inr ⟨clientID, dataSize, messageBuff, taken, rfl, hf⟩) hc
  | dequeue | begin | push | acceptLoop | sendLoop | receiveLoop | disconnectLoop =>
    exact .refl i _

theorem sendEvents_quiet (hc : ¬ s.Concerns i a) : requestedOf i (sendEvents s a) = [] ∧
    completedOf i (sendEvents s a) = 0 ∧ passedOf i (sendEvents s a) = [] := by
  cases a with
  | send taken =>
    simp only [sendEvents]
    split
    · rename_i target packet hpc
      have hne : target ≠ i := by
        rintro rfl
        exact hc (.inl ⟨packet, hpc⟩)
      simp [passedOf_passing, hne]
    · exact ⟨rfl, rfl, rfl⟩
  | request clientID dataSize messageBuff taken =>
    simp only [sendEvents]
    cases hf : s.server.clientFinder clientID with
    | none => exact ⟨rfl, rfl, rfl⟩
    | some target =>
      have hne : target ≠ i := by
        rintro rfl
        exact hc (.inr ⟨clientID, dataSize, messageBuff, taken, rfl, hf⟩)
      rw [Option.elim_some]
      split_ifs <;> simp [passedOf_passing, hne]
  | complete | dequeue | process | accept | receive | disconnect => exact ⟨rfl, rfl, rfl⟩

theorem sendEvents_request {clientID : ℤ} (hf : s.server.clientFinder clientID = some i)
    (dataSize : ℕ) (messageBuff : List UInt8) (taken : Bool) :
    requestedOf i (sendEvents s (.request clientID dataSize messageBuff taken)) =
        (if (s.server.heap i).mIsConnet
          then [(s.server.heap i).newSendContext dataSize (.message messageBuff)] else []) ∧
      completedOf i (sendEvents s (.request clientID dataSize messageBuff taken)) = 0 ∧
      passedOf i (sendEvents s (.request clientID dataSize messageBuff taken)) =
        submitted ((s.server.heap i).sendRequest dataSize (.message messageBuff)).2.1 := by
  simp only [sendEvents, hf, Option.elim_some]
  split_ifs <;> simp [passedOf_passing]

theorem sendEvents_answer {taken : Bool} (h : s.Answers i (.send taken)) :
    requestedOf i (sendEvents s (.send taken)) = [] ∧
      completedOf i (sendEvents s (.send taken)) = 1 := by
  obtain ⟨packet, hpc⟩ := h
  simp [sendEvents, hpc]

structure Unseen (i : ℕ) (es : List SendEvent) : Prop where
  requested : requestedOf i es = []
  completed : completedOf i es = 0
  passed : passedOf i es = []

variable {es : List SendEvent}

theorem Unseen.quiet (h : Unseen i es) (hc : ¬ s.Concerns i a) :
    Unseen i (es ++ sendEvents s a) := by
  obtain ⟨hr, hcomp, hp⟩ := sendEvents_quiet hc
  constructor
  · rw [requestedOf_append, h.requested, hr, List.append_nil]
  · rw [completedOf_append, h.completed, hcomp]
  · rw [passedOf_append, h.passed, hp, List.append_nil]

theorem Drains.quiet (h : Drains i es s) (hlt : i < s.server.allocated)
    (hs : machine.step s a = some (s', out)) (hc : ¬ s.Concerns i a) :
    Drains i (es ++ sendEvents s a) s' := by
  obtain ⟨hr, hcomp, hp⟩ := sendEvents_quiet hc
  constructor
  · rw [(step_quiet hs hc).kept hlt, completedOf_append, requestedOf_append, hcomp, hr,
      List.append_nil]
    exact h.size
  · rw [passedOf_append, requestedOf_append, completedOf_append, hp, hr, hcomp, List.append_nil,
      List.append_nil]
    exact h.passed

theorem Unseen.drains (h : Unseen i es) (hq : (s.server.heap i).mSendDataQueue.contents = []) :
    Drains i es s := by
  constructor
  · rw [size_eq, hq, h.completed, h.requested]
    rfl
  · rw [h.passed, h.requested]
    rfl

/-- `SendRequest` queues a request; if it is the only one left, it is sent at once. -/
theorem Drains.request {clientID : ℤ} {dataSize : ℕ} {messageBuff : List UInt8} {taken : Bool}
    (h : Drains i es s) (hi : s.Inv) (hf : s.server.clientFinder clientID = some i)
    (hroom : (s.server.heap i).mSendDataQueue.contents.length + 1 < maxQueueSize)
    (hs : machine.step s (.request clientID dataSize messageBuff taken) = some (s', out)) :
    Drains i (es ++ sendEvents s (.request clientID dataSize messageBuff taken)) s' := by
  have hlt := (hi.sound.numbered.finder.mp hf).2
  have hsize := h.size
  rw [size_eq] at hsize
  obtain ⟨hr, hcomp, hp⟩ := sendEvents_request hf dataSize messageBuff taken
  simp only [machine, hf, Option.map_some, Option.some.injEq, Prod.mk.injEq] at hs
  obtain ⟨rfl, -⟩ := hs
  by_cases hc : (s.server.heap i).mIsConnet = true
  · obtain ⟨hcontents, hsubmitted⟩ :=
      sendRequest_spec (hi.sound.sends i hlt).inRange hc hroom dataSize (.message messageBuff)
    rw [if_pos hc] at hr
    constructor
    · rw [size_eq, completedOf_append, requestedOf_append, hcomp, hr]
      simp only [assign_heap, hcontents, List.length_append, List.length_singleton]
      omega
    · rw [passedOf_append, requestedOf_append, completedOf_append, hcomp, hr, hp, hsubmitted,
        h.passed]
      split_ifs with hq
      · -- all earlier requests are completed
        rw [hq, List.length_nil] at hsize
        rw [List.take_of_length_le (by omega), List.take_of_length_le (by simp; omega)]
        simp
      · have hpos := List.length_pos_iff.mpr hq
        rw [List.take_append_of_le_length (by omega), List.append_nil, Nat.add_zero]
  · -- `SendRequest` returns at once
    have hsame : (s.server.heap i).sendRequest dataSize (.message messageBuff) =
        (s.server.heap i, [], false) := by
      simp [sendRequest, hc]
    rw [if_neg hc] at hr
    rw [hsame] at hp
    constructor
    · rw [completedOf_append, requestedOf_append, hcomp, hr, List.append_nil]
      simp only [hsame, assign_heap]
      exact h.size
    · rw [passedOf_append, requestedOf_append, completedOf_append, hcomp, hr, hp, List.append_nil]
      simpa [submitted] using h.passed

theorem Inv.answered_lt {taken : Bool} (hi : s.Inv) (ha : s.Answers i (.send taken)) :
    i < s.server.allocated := by
  obtain ⟨packet, hpc⟩ := ha
  have hok := hi.sending
  rw [hpc] at hok
  exact hok

/-- An answered completion adds to `mSendDataQueue` instead of taking from it. -/
theorem Drains.not_answered {taken : Bool} (h : Drains i es s) (hi : s.Inv)
    (ha : s.Answers i (.send taken)) (hs : machine.step s (.send taken) = some (s', out)) :
    ¬ Drains i (es ++ sendEvents s (.send taken)) s' := by
  have hlt := hi.answered_lt ha
  obtain ⟨hr, hcomp⟩ := sendEvents_answer ha
  obtain ⟨packet, hpc⟩ := ha
  simp only [machine, hpc, Option.some.injEq, Prod.mk.injEq] at hs
  obtain ⟨rfl, -⟩ := hs
  have hgrows := sendRequest_grows (hi.sound.sends i hlt).inRange packet.dataSize
    packet.bufferPtr
  intro h'
  have hsize := h.size
  have hsize' := h'.size
  rw [size_eq] at hsize hsize'
  rw [completedOf_append, requestedOf_append, hr, hcomp, List.append_nil] at hsize'
  simp only [sendStep, assign_heap] at hsize'
  omega

theorem Answers.send (h : s.Answers i a) : ∃ taken, a = .send taken := by
  cases a with
  | send taken => exact ⟨taken, rfl⟩
  | complete | dequeue | process | accept | receive | disconnect | request => exact h.elim

theorem Concerns.allocated (hc : s.Concerns i a) (hs : machine.step s a = some (s', out)) :
    s'.server.allocated = s.server.allocated := by
  rcases hc with ha | ⟨clientID, dataSize, messageBuff, taken, rfl, hf⟩
  · obtain ⟨taken, rfl⟩ := ha.send
    obtain ⟨packet, hpc⟩ := ha
    simp only [machine, hpc, Option.some.injEq, Prod.mk.injEq] at hs
    obtain ⟨rfl, -⟩ := hs
    rfl
  · simp only [machine, hf, Option.map_some, Option.some.injEq, Prod.mk.injEq] at hs
    obtain ⟨rfl, -⟩ := hs
    rfl

/-- A step goes on draining exactly when it answers no completion of the client. -/
theorem drains_step_iff (h : i < s.server.allocated → Drains i es s)
    (hu : s.server.allocated ≤ i → Unseen i es) (hi : s.Inv)
    (hroom : i < s.server.allocated →
      (s.server.heap i).mSendDataQueue.contents.length + 1 < maxQueueSize)
    (hs : machine.step s a = some (s', out)) :
    (s'.server.allocated ≤ i → Unseen i (es ++ sendEvents s a)) ∧
      ((i < s'.server.allocated → Drains i (es ++ sendEvents s a) s') ↔ ¬ s.Answers i a) := by
  by_cases hc : s.Concerns i a
  · have hall := hc.allocated hs
    rcases hc with ha | ⟨clientID, dataSize, messageBuff, taken, rfl, hf⟩
    · obtain ⟨taken, rfl⟩ := ha.send
      have hlt := hi.answered_lt ha
      refine ⟨fun hle => absurd hlt (by omega), iff_of_false (fun h' => ?_) (not_not_intro ha)⟩
      exact (h hlt).not_answered hi ha hs (h' (by omega))
    · have hlt := (hi.sound.numbered.finder.mp hf).2
      refine ⟨fun hle => absurd hlt (by omega), iff_of_true (fun _ => ?_) id⟩
      exact (h hlt).request hi hf (hroom hlt) hs
  · have hq := step_quiet hs hc
    refine ⟨fun hle => (hu (hq.le.trans hle)).quiet hc,
      iff_of_true (fun hlt => ?_) fun ha => hc (.inl ha)⟩
    by_cases hold : i < s.server.allocated
    · exact (h hold).quiet hold hs hc
    · have hle := Nat.le_of_not_lt hold
      exact ((hu hle).quiet hc).drains (hq.fresh hle hlt)

variable (memory : ℕ → ClientDataSet) (buffers : QueueName → ℕ → Packet) (n : ℕ)
  (errorCode : ℤ → ℤ) (taken : ℕ → Bool)

/-- While `mSendDataQueue` of a client is never full, it holds the requests not completed, and one
more than these was sent, exactly as long as no completion of the client is handed to `Send`. -/
theorem drains_along_iff (i : ℕ) (as : List Act) (ha : ∀ a ∈ as, SendsTransfer a)
    (hfull : pipeline.Along (start memory buffers n errorCode taken) as fun _ s =>
      i < s.server.allocated →
        (s.server.heap i).mSendDataQueue.contents.length + 1 < maxQueueSize) :
    (pipeline.Along (start memory buffers n errorCode taken) as fun es s =>
        i < s.server.allocated → Drains i es s) ↔
      pipeline.Steps (start memory buffers n errorCode taken) as fun s a => ¬ s.Answers i a := by
  refine Machine.along_iff_steps
    (J := fun es s => s.Inv ∧ (s.server.allocated ≤ i → Unseen i es)) ?_ ?_ ?_
  · have hstart := (prepareSocket_quiet i n errorCode (EchoServer.new memory)).fresh (Nat.zero_le i)
    exact ⟨⟨start_inv memory buffers n errorCode taken, fun _ => ⟨rfl, rfl, rfl⟩⟩,
      fun hi => Unseen.drains ⟨rfl, rfl, rfl⟩ (hstart hi)⟩
  · intro bs es s a s' out hp hr ⟨hi, hu⟩ h hs
    obtain ⟨⟨e, hs'⟩, rfl⟩ := Machine.observing_step.mp hs
    have hroom := hfull bs es s ((List.prefix_append bs [a]).trans hp) hr
    obtain ⟨hu', hiff⟩ := drains_step_iff h hu hi hroom hs'
    exact ⟨⟨(hi.step (ha a (hp.subset (by simp))) hs').1, hu'⟩, hiff⟩
  · intro s a hblocked hanswer
    obtain ⟨taken, rfl⟩ := hanswer.send
    obtain ⟨packet, hpc⟩ := hanswer
    simp [pipeline, Machine.observing, machine, hpc] at hblocked

/-- The client of the only slot is accepted, and the application sends it one byte. -/
def oneSend : List Act := oneAccept ++ [.request 0 1 [7] true]

theorem drains_along_iff_oneSend :
    (pipeline.run (start (fun _ => default) (fun _ _ => default) 1 (fun _ => 0) fun _ => true)
      oneSend).map (fun r => ((requestedOf 0 r.2).length, (passedOf 0 r.2).length)) =
        some (1, 1) ∧
    pipeline.Along (start (fun _ => default) (fun _ _ => default) 1 (fun _ => 0) fun _ => true)
      oneSend fun es s => 0 < s.server.allocated → Drains 0 es s := by
  have hacts (a : Act) (ha : a ∈ oneSend) : SendsTransfer a ∧ ∀ taken, a ≠ .send taken := by
    simp only [oneSend, oneAccept, List.mem_append, List.mem_cons, List.mem_replicate,
      List.not_mem_nil, or_false] at ha
    rcases ha with (rfl | rfl | ⟨-, rfl⟩ | ⟨-, rfl⟩) | rfl <;> exact ⟨trivial, by simp⟩
  refine ⟨by decide +kernel, (drains_along_iff _ _ _ _ _ 0 oneSend (fun a ha => (hacts a ha).1)
    (Machine.along_of_inits (by decide +kernel))).mpr ?_⟩
  intro bs a es s hp _ hanswer
  have hin : a ∈ oneSend := hp.subset (by simp)
  cases a with
  | send taken => exact (hacts _ hin).2 taken rfl
  | complete | dequeue | process | accept | receive | disconnect | request => exact hanswer

/-- The send completes, and `SendWorker` hands the completion to `Send`. -/
def oneSendCompleted : List Act :=
  let context : CustomOverlapped := { CustomOverlapped.zero with
    operationType := .opSend
    wsabuf := ⟨1, .message [7]⟩ }
  oneSend ++ .complete ⟨0, .send context⟩ true [7] :: .dequeue ⟨⟨0, .send context⟩, true, 1⟩ ::
    (List.replicate 5 .process ++ List.replicate 6 (.send true))

/-- One request, one completion, and two messages are queued. -/
theorem completion_enqueues : (∀ a ∈ oneSendCompleted, SendsTransfer a) ∧
    pipeline.Along (start (fun _ => default) (fun _ _ => default) 1 (fun _ => 0) fun _ => true)
      oneSendCompleted (fun _ s => 0 < s.server.allocated →
        (s.server.heap 0).mSendDataQueue.contents.length + 1 < maxQueueSize) ∧
    (∃ es s, pipeline.run (start (fun _ => default) (fun _ _ => default) 1 (fun _ => 0)
      fun _ => true) oneSendCompleted = some (s, es) ∧ s.server.connected 0 = true ∧
        (requestedOf 0 es).length = 1 ∧ completedOf 0 es = 1 ∧
        (s.server.heap 0).mSendDataQueue.size = 2) ∧
    ¬ pipeline.Along (start (fun _ => default) (fun _ _ => default) 1 (fun _ => 0) fun _ => true)
      oneSendCompleted (fun es s => 0 < s.server.allocated → Drains 0 es s) := by
  have hend : (pipeline.run (start (fun _ => default) (fun _ _ => default) 1 (fun _ => 0)
      fun _ => true) oneSendCompleted).map (fun r => (r.1.server.allocated,
        r.1.server.connected 0, (requestedOf 0 r.2).length, completedOf 0 r.2,
        (r.1.server.heap 0).mSendDataQueue.size)) = some (1, true, 1, 1, 2) := by
    decide +kernel
  obtain ⟨⟨s, es⟩, hr, he⟩ := Option.map_eq_some_iff.mp hend
  simp only [Prod.mk.injEq] at he
  obtain ⟨halloc, hconn, hreq, hcomp, hsize⟩ := he
  refine ⟨?_, Machine.along_of_inits (by decide +kernel),
    ⟨es, s, hr, hconn, hreq, hcomp, hsize⟩, fun hdrains => ?_⟩
  · intro a ha
    simp only [oneSendCompleted, oneSend, oneAccept, List.mem_append, List.mem_cons,
      List.mem_replicate, List.not_mem_nil, or_false] at ha
    rcases ha with ((rfl | rfl | ⟨-, rfl⟩ | ⟨-, rfl⟩) | rfl) | rfl | rfl | ⟨-, rfl⟩ | ⟨-, rfl⟩ <;>
      simp [SendsTransfer]
  · have hd := (hdrains.last hr (by omega)).size
    omega

end EchoSystem

end EchoIocp
