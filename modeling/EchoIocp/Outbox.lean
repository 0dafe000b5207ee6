import EchoIocp.Accepting
import EchoIocp.Routing
import EchoIocp.Sending
import EchoIocp.Stream

namespace EchoIocp

open LockFreeCircleQueue ClientDataSet EchoServer

namespace ClientDataSet

variable {c : ClientDataSet}

/-- The capacity of `mSendDataQueue`. -/
abbrev maxSends : ℕ := maxQueueSize - 1

/-- With the first contexts queued, full or not, `SendRequest` goes on queueing the first. -/
theorem sendRequest_take {made : List CustomOverlapped} (hr : c.mSendDataQueue.InRange)
    (hc : c.mIsConnet = true)
    (hm : c.mSendDataQueue.contents = (made.take maxSends).map some) (dataSize : ℕ)
    (messageBuff : BufferPtr) :
    (c.sendRequest dataSize messageBuff).1.mSendDataQueue.contents =
        ((made ++ [c.newSendContext dataSize messageBuff]).take maxSends).map some ∧
      made.take 1 ++ (if made = [] then [c.newSendContext dataSize messageBuff] else []) =
        (made ++ [c.newSendContext dataSize messageBuff]).take 1 ∧
      submitted (c.sendRequest dataSize messageBuff).2.1 =
        (if made = [] then [c.newSendContext dataSize messageBuff] else []).map some := by
  have hcap : maxSends + 1 = maxQueueSize := rfl
  have hpos : 0 < maxSends := by decide
  have hlen : c.mSendDataQueue.contents.length = min maxSends made.length := by
    rw [hm, List.length_map, List.length_take]
  have hone : made.take 1 ++ (if made = [] then [c.newSendContext dataSize messageBuff] else []) =
      (made ++ [c.newSendContext dataSize messageBuff]).take 1 := by
    cases made <;> simp
  by_cases hfull : c.mSendDataQueue.contents.length + 1 = maxQueueSize
  · have hmany : maxSends ≤ made.length := by omega
    have hne : made ≠ [] := List.ne_nil_of_length_pos (by omega)
    rw [sendRequest_of_full hr hc hfull, List.take_append_of_le_length hmany, if_neg hne]
    exact ⟨hm, by simpa [if_neg hne] using hone, rfl⟩
  · have hlt := length_lt hr
    have hroom : made.length < maxSends := by omega
    have hnil : c.mSendDataQueue.contents = [] ↔ made = [] := by
      rw [← List.length_eq_zero_iff, ← List.length_eq_zero_iff, hlen]
      omega
    have hall : (made ++ [c.newSendContext dataSize messageBuff]).length ≤ maxSends := by
      rw [List.length_append, List.length_singleton]
      omega
    obtain ⟨hcontents, hsubmitted⟩ := sendRequest_spec hr hc (by omega) dataSize messageBuff
    refine ⟨?_, hone, ?_⟩
    · rw [hcontents, hm, List.take_of_length_le hroom.le, List.take_of_length_le hall,
        List.map_append]
      rfl
    · rw [hsubmitted]
      simp only [hnil]
      split_ifs <;> rfl

end ClientDataSet

namespace EchoSystem

/-- A context that `SendRequest` makes, and one that it gives to `WSASend`. -/
inductive Outgoing
  | made (target : ℕ) (context : CustomOverlapped)
  | submitted (target : ℕ) (context : Option CustomOverlapped)

/-- The call of `SendRequest` in a step: by the application or, with what was sent, by `Send`. -/
def requesting (s : EchoSystem) : Act → Option (ℕ × ℕ × BufferPtr)
  | .request clientID dataSize messageBuff _ =>
    (s.server.clientFinder clientID).map fun target => (target, dataSize, .message messageBuff)
  | .send _ =>
    match s.sendThread with
    | some (.request target packet) => some (target, packet.dataSize, packet.bufferPtr)
    | _ => none
  | _ => none

def outgoing (s : EchoSystem) (a : Act) : List Outgoing :=
  (s.requesting a).elim [] fun r =>
    let c := s.server.heap r.1
    (if c.mIsConnet then [.made r.1 (c.newSendContext r.2.1 r.2.2)] else []) ++
      (ClientDataSet.submitted (c.sendRequest r.2.1 r.2.2).2.1).map (.submitted r.1)

def madeOf (i : ℕ) (es : List Outgoing) : List CustomOverlapped :=
  es.filterMap fun
    | .made target context => if target = i then some context else none
    | .submitted _ _ => none

def submittedOf (i : ℕ) (es : List Outgoing) : List (Option CustomOverlapped) :=
  es.filterMap fun
    | .submitted target context => if target = i then some context else none
    | .made _ _ => none

section outgoing

variable (i target : ℕ) (context : CustomOverlapped) (es es' : List Outgoing)

@[simp] theorem madeOf_append : madeOf i (es ++ es') = madeOf i es ++ madeOf i es' :=
  List.filterMap_append

@[simp] theorem submittedOf_append :
    submittedOf i (es ++ es') = submittedOf i es ++ submittedOf i es' := List.filterMap_append

@[simp] theorem madeOf_submitted (l : List (Option CustomOverlapped)) :
    madeOf i (l.map (.submitted target)) = [] := by
  induction l with
  | nil => rfl
  | cons context l ih =>
    rw [List.map_cons, madeOf, List.filterMap_cons]
    exact ih

@[simp] theorem submittedOf_submitted (l : List (Option CustomOverlapped)) :
    submittedOf i (l.map (.submitted target)) = if target = i then l else [] := by
  unfold submittedOf
  rw [List.filterMap_map]
  by_cases h : target = i <;> simp [h]

@[simp] theorem madeOf_made : madeOf i (.made target context :: es) =
    (if target = i then [context] else []) ++ madeOf i es := by
  by_cases h : target = i <;> simp [madeOf, h]

@[simp] theorem submittedOf_made :
    submittedOf i (.made target context :: es) = submittedOf i es := rfl

end outgoing

variable {s s' : EchoSystem} {a : Act} {out : List Event} {i : ℕ} {es : List Outgoing}

theorem requesting_concerns {r : ℕ × ℕ × BufferPtr} (hr : s.requesting a = some r) :
    s.Concerns r.1 a := by
  cases a with
  | request clientID dataSize messageBuff taken =>
    obtain ⟨target, hf, rfl⟩ := Option.map_eq_some_iff.mp hr
    exact .inr ⟨clientID, dataSize, messageBuff, taken, rfl, hf⟩
  | send taken =>
    simp only [requesting] at hr
    split at hr
    · rename_i target packet hpc
      obtain rfl := Option.some.inj hr
      exact .inl ⟨packet, hpc⟩
    · cases hr
  | complete | dequeue | process | accept | receive | disconnect => cases hr

theorem concerns_requesting (hc : s.Concerns i a) :
    ∃ dataSize messageBuff, s.requesting a = some (i, dataSize, messageBuff) := by
  rcases hc with ha | ⟨clientID, dataSize, messageBuff, taken, rfl, hf⟩
  · obtain ⟨taken, rfl⟩ := ha.send
    obtain ⟨packet, hpc⟩ := ha
    exact ⟨packet.dataSize, packet.bufferPtr, by simp [requesting, hpc]⟩
  · exact ⟨dataSize, .message messageBuff, by simp [requesting, hf]⟩

theorem requesting_step {dataSize : ℕ} {messageBuff : BufferPtr}
    (hr : s.requesting a = some (i, dataSize, messageBuff))
    (hs : machine.step s a = some (s', out)) :
    s'.server = s.server.assign i ((s.server.heap i).sendRequest dataSize messageBuff).1 := by
  cases a with
  | request clientID dataSize messageBuff taken =>
    obtain ⟨target, hf, he⟩ := Option.map_eq_some_iff.mp hr
    simp only [Prod.mk.injEq] at he
    obtain ⟨rfl, rfl, rfl⟩ := he
    simp only [machine, hf, Option.map_some, Option.some.injEq, Prod.mk.injEq] at hs
    rw [← hs.1]
  | send taken =>
    simp only [requesting] at hr
    split at hr
    · rename_i target packet hpc
      simp only [Option.some.injEq, Prod.mk.injEq] at hr
      obtain ⟨rfl, rfl, rfl⟩ := hr
      simp only [machine, hpc, Option.some.injEq, Prod.mk.injEq] at hs
      rw [← hs.1]
      rfl
    · cases hr
  | complete | dequeue | process | accept | receive | disconnect => cases hr

theorem outgoing_quiet (hc : ¬ s.Concerns i a) :
    madeOf i (s.outgoing a) = [] ∧ submittedOf i (s.outgoing a) = [] := by
  unfold outgoing
  cases hr : s.requesting a with
  | none => exact ⟨rfl, rfl⟩
  | some r =>
    have hne : r.1 ≠ i := by
      rintro rfl
      exact hc (requesting_concerns hr)
    rw [Option.elim_some]
    dsimp only
    split_ifs <;> simp [hne]

theorem outgoing_request {dataSize : ℕ} {messageBuff : BufferPtr}
    (hr : s.requesting a = some (i, dataSize, messageBuff)) :
    madeOf i (s.outgoing a) = (if (s.server.heap i).mIsConnet
        then [(s.server.heap i).newSendContext dataSize messageBuff] else []) ∧
      submittedOf i (s.outgoing a) =
        submitted ((s.server.heap i).sendRequest dataSize messageBuff).2.1 := by
  unfold outgoing
  rw [hr, Option.elim_some]
  dsimp only
  split_ifs <;> simp

/-- Of the contexts made for client `i` the first is submitted, and the first `maxSends` are kept. -/
structure Outbox (i : ℕ) (es : List Outgoing) (s : EchoSystem) : Prop where
  unmade : s.server.allocated ≤ i → madeOf i es = []
  queue : i < s.server.allocated →
    (s.server.heap i).mSendDataQueue.contents = ((madeOf i es).take maxSends).map some
  submitted : submittedOf i es = ((madeOf i es).take 1).map some

theorem Outbox.quiet (h : Outbox i es s) (hs : machine.step s a = some (s', out))
    (hc : ¬ s.Concerns i a) : Outbox i (es ++ s.outgoing a) s' := by
  have hq := step_quiet hs hc
  obtain ⟨hm, hsub⟩ := outgoing_quiet hc
  refine ⟨fun hi => ?_, fun hi => ?_, ?_⟩
  · rw [madeOf_append, hm, List.append_nil]
    exact h.unmade (hq.le.trans hi)
  · rw [madeOf_append, hm, List.append_nil]
    by_cases hold : i < s.server.allocated
    · rw [hq.kept hold]
      exact h.queue hold
    · -- a slot that was just added
      rw [hq.fresh (Nat.le_of_not_lt hold) hi, h.unmade (Nat.le_of_not_lt hold)]
      rfl
  · rw [submittedOf_append, hsub, madeOf_append, hm, List.append_nil, List.append_nil]
    exact h.submitted

theorem Outbox.request {dataSize : ℕ} {messageBuff : BufferPtr} (h : Outbox i es s)
    (hi : i < s.server.allocated) (hin : (s.server.heap i).mSendDataQueue.InRange)
    (hr : s.requesting a = some (i, dataSize, messageBuff))
    (hs : machine.step s a = some (s', out)) : Outbox i (es ++ s.outgoing a) s' := by
  have hserver := requesting_step hr hs
  have ha : s'.server.allocated = s.server.allocated := by
    rw [hserver]
    rfl
  have hheap : s'.server.heap i = ((s.server.heap i).sendRequest dataSize messageBuff).1 := by
    rw [hserver, assign_heap]
  obtain ⟨hm, hsub⟩ := outgoing_request hr
  refine ⟨fun hle => absurd hi (by omega), fun _ => ?_, ?_⟩
  · rw [hheap, madeOf_append, hm]
    by_cases hc : (s.server.heap i).mIsConnet = true
    · rw [if_pos hc]
      exact (sendRequest_take hin hc (h.queue hi) dataSize messageBuff).1
    · rw [if_neg hc, List.append_nil,
        sendRequest_of_disconnected (Bool.eq_false_of_not_eq_true hc)]
      exact h.queue hi
  · rw [submittedOf_append, hsub, madeOf_append, hm, h.submitted]
    by_cases hc : (s.server.heap i).mIsConnet = true
    · obtain ⟨-, hone, hcalls⟩ := sendRequest_take hin hc (h.queue hi) dataSize messageBuff
      rw [if_pos hc, hcalls, ← hone, List.map_append]
    · rw [if_neg hc, List.append_nil,
        sendRequest_of_disconnected (Bool.eq_false_of_not_eq_true hc)]
      exact List.append_nil _

theorem Outbox.step (h : Outbox i es s) (hroute : s.Routable)
    (hs : machine.step s a = some (s', out)) : Outbox i (es ++ s.outgoing a) s' := by
  by_cases hc : s.Concerns i a
  · obtain ⟨dataSize, messageBuff, hr⟩ := concerns_requesting hc
    have hi : i < s.server.allocated := by
      rcases hc with ha | ⟨clientID, _, _, _, rfl, hf⟩
      · obtain ⟨taken, rfl⟩ := ha.send
        obtain ⟨packet, hpc⟩ := ha
        have hlive := hroute.sending
        rw [hpc] at hlive
        obtain ⟨j, hj, -, he⟩ := hlive
        obtain rfl := Int.ofNat_inj.mp he
        exact hj
      · exact (hroute.numbered.finder.mp hf).2
    exact h.request hi (hroute.serving.sound.sends i hi).inRange hr hs
  · exact h.quiet hs hc

/-- What was sent comes back through `Send` and is queued again, but not submitted. -/
example : ((machine.observing outgoing).run
    (start (fun _ => default) (fun _ _ => default) 1 (fun _ => 0) fun _ => true)
    oneSendCompleted).map (fun r => ((madeOf 0 r.2).length, (submittedOf 0 r.2).length)) =
      some (2, 1) := by decide +kernel

/-- The application calls no `SendRequest`. -/
def Unasked : Act → Prop
  | .request _ _ _ _ => False
  | _ => True

/-- Nothing is being sent, and nothing that was sent is on its way back. -/
structure Silent (s : EchoSystem) : Prop where
  operations : ∀ op ∈ s.inFlight, op.serves = true
  packets : s.port.transit .sendQueue = []
  thread : s.sendThread = none

theorem dispatchTo_send {server : EchoServer} {c : Completed} (ha : server.Armed c.op)
    (hserves : c.op.serves = true) : dispatchTo .sendQueue (server.completion c) = [] := by
  obtain ⟨⟨owner, overlapped⟩, result, bytesTransferred⟩ := c
  obtain ⟨-, hcontext⟩ := ha
  cases overlapped with
  | accept =>
    have hctx : (server.heap owner).mAcceptContext = acceptContext owner := hcontext
    cases result <;> simp [dispatchTo, dispatch, completion, context, hctx, acceptContext]
  | receive =>
    have hctx : (server.heap owner).mReceiveContext = receiveContext owner := hcontext
    by_cases hb : bytesTransferred = 0 <;> cases result <;>
      simp [dispatchTo, dispatch, completion, context, hctx, receiveContext, hb]
  | send sent => exact absurd hserves (by simp [Posted.serves])

theorem Silent.handler {server' : EchoServer} {acceptThread' : Option AcceptPc}
    {receiveThread' : Option ReceivePc} {disconnectThread' : Option DisconnectPc}
    {ops : List Posted} {taken : Bool} (h : s.Silent) (hops : ∀ op ∈ ops, op.serves = true) :
    Silent { s with
      server := server'
      acceptThread := acceptThread'
      receiveThread := receiveThread'
      disconnectThread := disconnectThread'
      outstanding := s.outstanding ++ if taken then ops else [] } := by
  refine ⟨fun op hop => ?_, h.packets, h.thread⟩
  simp only [inFlight, List.append_assoc, List.mem_append] at hop
  rcases hop with hop | hop | hop
  · exact h.operations op (List.mem_append_left _ hop)
  · cases taken with
    | true => exact hops op hop
    | false => exact absurd hop List.not_mem_nil
  · exact h.operations op (List.mem_append_right _ hop)

theorem Silent.worker {acceptThread' : Option AcceptPc} {receiveThread' : Option ReceivePc}
    {disconnectThread' : Option DisconnectPc} (h : s.Silent) (hroute : s.Routable)
    (name : QueueName) (hn : name ≠ .sendQueue) :
    Silent { s with
      port := (s.port.workerStep name).1
      acceptThread := acceptThread'
      receiveThread := receiveThread'
      disconnectThread := disconnectThread' } := by
  obtain ⟨-, -, -, -, heffect⟩ := IOCompletionPort.workerStep_spec hroute.shared name
  exact ⟨h.operations, (heffect.elsewhere hn).trans h.packets, h.thread⟩

theorem disconnectStep_serves (server : EchoServer) (errorCode : ℤ) (pc : DisconnectPc) :
    ∀ op ∈ (server.disconnectStep errorCode pc).2.2, op.serves = true := by
  cases pc with
  | tryAccept target pc => exact tryAcceptStep_serves target _ errorCode pc
  | finder | loadCount | storeCount => exact List.forall_mem_nil _

theorem Silent.step (h : s.Silent) (hroute : s.Routable) (ha : Unasked a)
    (hs : machine.step s a = some (s', out)) : s'.Silent := by
  cases effect_of_step hs with
  | complete op result bytes hop =>
    refine ⟨fun op' hop' => ?_, h.packets, h.thread⟩
    simp only [inFlight, List.cons_append, List.map_cons, List.mem_append, List.mem_cons] at hop'
    rcases hop' with hop' | rfl | hop'
    · exact h.operations op' (List.mem_append_left _ (List.mem_of_mem_erase hop'))
    · exact h.operations _ (List.mem_append_left _ hop)
    · exact h.operations op' (List.mem_append_right _ hop')
  | dequeue c hc =>
    refine ⟨fun op hop => h.operations op (mem_inFlight_of_taken (fun c' hc' => ?_) hop),
      h.packets, h.thread⟩
    rcases List.mem_append.mp hc' with hc' | hc'
    · exact List.mem_append_left _ (List.mem_of_mem_erase hc')
    · rw [List.mem_singleton.mp hc']
      exact List.mem_append_left _ hc
  | begin c hin =>
    obtain ⟨-, htransit⟩ := IOCompletionPort.begin_spec hroute.shared
      (hroute.idle (by simp [hin])) (s.server.completion c)
    have hmem : c.op ∈ s.inFlight := by simp [inFlight, hin]
    have hserves := h.operations c.op hmem
    have harmed : s.server.Armed c.op :=
      hroute.serving.armed c.op (mem_hush_inFlight hmem hserves)
    refine ⟨fun op hop => h.operations op (mem_inFlight_of_taken (fun c' hc' => ?_) hop), ?_,
      h.thread⟩
    · exact List.mem_append_left _ (by simpa using hc')
    · rw [htransit, h.packets, dispatchTo_send harmed hserves]
      rfl
  | push port' e hin hstep =>
    obtain ⟨-, -, -, heffect⟩ := IOCompletionPort.processStep_spec hroute.shared hstep
    exact ⟨h.operations, heffect.empty h.packets, h.thread⟩
  | acceptLoop => exact h.worker hroute .acceptQueue (by simp)
  | receiveLoop => exact h.worker hroute .receiveQueue (by simp)
  | disconnectLoop => exact h.worker hroute .disconnectQueue (by simp)
  | sendLoop =>
    -- `SendWorker` finds its queue empty
    obtain ⟨-, -, -, -, heffect⟩ := IOCompletionPort.workerStep_spec hroute.shared .sendQueue
    obtain ⟨hcalled, htransit⟩ := heffect.called_none h.packets
    refine ⟨h.operations, htransit, ?_⟩
    rw [hcalled]
    rfl
  | accept errorCode taken pc => exact h.handler (acceptStep_serves errorCode pc)
  | receive taken pc => exact h.handler (receiveStep_serves 0 pc)
  | disconnect errorCode taken pc => exact h.handler (disconnectStep_serves s.server errorCode pc)
  | send taken pc hpc =>
    rw [h.thread] at hpc
    cases hpc
  | request => exact ha.elim

/-- The server sends nothing of its own: without a call of the application no context is made, none
is given to `WSASend`, and `SendWorker` never calls back. -/
theorem silent_along (memory : ℕ → ClientDataSet) (buffers : QueueName → ℕ → Packet) (n : ℕ)
    (errorCode : ℤ → ℤ) (taken : ℕ → Bool) (as : List Act) (ha : ∀ a ∈ as, Unasked a) :
    (machine.observing outgoing).Along (start memory buffers n errorCode taken) as fun es s =>
      es = [] ∧ s.Silent := by
  have hboth : (machine.observing outgoing).Along (start memory buffers n errorCode taken) as
      fun es s => s.Routable ∧ es = [] ∧ s.Silent := by
    refine Machine.Steps.along (C := fun _ a => Unasked a) ?_ ?_ ?_
    · intro bs a es s hp _
      exact ha a (hp.subset (by simp))
    · refine ⟨start_routable memory buffers n errorCode taken, rfl, fun op hop => ?_, ?_, rfl⟩
      · have hmem : op ∈ (start memory buffers n errorCode taken).outstanding := by
          simpa [inFlight, start] using hop
        rw [start_outstanding] at hmem
        obtain ⟨i, -, rfl⟩ := List.mem_map.mp hmem
        rfl
      · exact IOCompletionPort.new_transit _ _ _
    · rintro es s a s' out ⟨hroute, rfl, h⟩ hunasked hs
      obtain ⟨⟨e, hstep⟩, rfl⟩ := Machine.observing_step.mp hs
      refine ⟨hroute.step hstep, ?_, h.step hroute hunasked hstep⟩
      have hnone : s.requesting a = none := by
        cases a with
        | send taken => simp only [requesting, h.thread]
        | request => exact hunasked.elim
        | complete | dequeue | process | accept | receive | disconnect => rfl
      rw [outgoing, hnone]
      rfl
  exact fun bs es s hp hr => (hboth bs es s hp hr).2

theorem silent_along_twoBytes :
    (machine.run (start (fun _ => default) (fun _ _ => default) 1 (fun _ => 0) fun _ => true)
      twoBytes).map (fun r => deliveredTo 0 r.2) = some [7, 8, 9] ∧
    (machine.observing outgoing).Along
      (start (fun _ => default) (fun _ _ => default) 1 (fun _ => 0) fun _ => true) twoBytes
      fun es s => es = [] ∧ s.Silent := by
  refine ⟨by decide +kernel, silent_along _ _ _ _ _ _ fun a ha => ?_⟩
  simp only [twoBytes, oneAccept, List.mem_append, List.mem_cons, List.mem_replicate,
    List.not_mem_nil, or_false] at ha
  rcases ha with (rfl | rfl | ⟨-, rfl⟩ | ⟨-, rfl⟩) | rfl | rfl | (⟨-, rfl⟩ | ⟨-, rfl⟩) | rfl <;>
    trivial

end EchoSystem

end EchoIocp
