import EchoIocp.Alive
import EchoIocp.Hushed

namespace EchoIocp

open LockFreeCircleQueue ClientDataSet EchoServer

/-- What `SendRequest` fills in for client `i`. -/
def CustomOverlapped.IsSendOf (i : ℕ) (o : CustomOverlapped) : Prop :=
  o.operationType = .opSend ∧ o.id = i

namespace EchoServer

/-- Every client of the map has a socket of its own and queues contexts with its id. -/
structure Registered (s : EchoServer) : Prop where
  sockets : s.sockets = s.allocated
  socket : ∀ i < s.allocated, (s.heap i).mClientSocketPtr = i
  queued : ∀ i < s.allocated, ∀ x ∈ (s.heap i).mSendDataQueue.contents,
    ∃ o, x = some o ∧ o.IsSendOf i

/-- A client that is connected; it stays so. -/
def Live (s : EchoServer) (id : ℤ) : Prop := ∃ i < s.allocated, s.connected i = true ∧ (i : ℤ) = id

/-- No client is taken out of the map, or not connected any more. -/
structure Grows (s s' : EchoServer) : Prop where
  allocated : s.allocated ≤ s'.allocated
  connected : ∀ i < s.allocated, s.connected i = true → s'.connected i = true

variable {s s' : EchoServer} {target : ℕ} {c : ClientDataSet} {id : ℤ}

theorem Advance.grows (h : Advance s s') : Grows s s' := ⟨h.allocated, h.connected⟩

theorem Still.grows (h : Still s s') : Grows s s' :=
  ⟨h.allocated.ge, fun i _ hc => by rw [h.connected, hc]⟩

theorem Grows.trans {s'' : EchoServer} (h : Grows s s') (h' : Grows s' s'') : Grows s s'' where
  allocated := h.allocated.trans h'.allocated
  connected := fun i hi hc => h'.connected i (hi.trans_le h.allocated) (h.connected i hi hc)

theorem Live.grows (h : s.Live id) (hg : Grows s s') : s'.Live id := by
  obtain ⟨i, hi, hc, hid⟩ := h
  exact ⟨i, hi.trans_le hg.allocated, hg.connected i hi hc, hid⟩

theorem Live.finder (h : s.Live id) (hn : s.Numbered) : (s.clientFinder id).isSome = true := by
  obtain ⟨i, hi, -, rfl⟩ := h
  rw [hn.finder.mpr ⟨rfl, hi⟩]
  rfl

theorem new_registered (memory : ℕ → ClientDataSet) : (new memory).Registered :=
  ⟨rfl, fun _ hi => absurd hi (Nat.not_lt_zero _), fun _ hi => absurd hi (Nat.not_lt_zero _)⟩

theorem Registered.congr (h : s.Registered) (hh : s'.heap = s.heap) (ha : s'.allocated = s.allocated)
    (hs : s'.sockets = s.sockets) : s'.Registered := by
  refine ⟨by rw [hs, ha, h.sockets], fun i hi => ?_, fun i hi => ?_⟩
  · rw [hh]
    exact h.socket i (ha ▸ hi)
  · rw [hh]
    exact h.queued i (ha ▸ hi)

theorem Registered.assign (h : s.Registered)
    (hs : c.mClientSocketPtr = (s.heap target).mClientSocketPtr)
    (hq : target < s.allocated →
      ∀ x ∈ c.mSendDataQueue.contents, ∃ o, x = some o ∧ o.IsSendOf target) :
    (s.assign target c).Registered := by
  have hheap (i : ℕ) (hi : i ≠ target) : (s.assign target c).heap i = s.heap i :=
    Function.update_of_ne hi _ _
  refine ⟨h.sockets, fun i hi => ?_, fun i hi => ?_⟩
  · by_cases ht : i = target
    · subst ht
      rw [assign_heap, hs]
      exact h.socket i hi
    · rw [hheap i ht]
      exact h.socket i hi
  · by_cases ht : i = target
    · subst ht
      rw [assign_heap]
      exact hq hi
    · rw [hheap i ht]
      exact h.queued i hi

theorem Registered.assign_same (h : s.Registered)
    (hs : c.mClientSocketPtr = (s.heap target).mClientSocketPtr)
    (hq : c.mSendDataQueue = (s.heap target).mSendDataQueue) :
    (s.assign target c).Registered := by
  apply h.assign hs
  rw [hq]
  exact h.queued target

theorem Registered.createClient (h : s.Registered) :
    (s.createClient s.allocated).Registered := by
  have hheap (i : ℕ) (hi : i ≠ s.allocated) :
      (s.createClient s.allocated).heap i = s.heap i := Function.update_of_ne hi _ _
  have hnew : (s.createClient s.allocated).heap s.allocated =
      .new (s.heap s.allocated) s.allocated s.sockets := Function.update_self _ _ _
  have hlt (i : ℕ) (hi : i < (s.createClient s.allocated).allocated) (hn : i ≠ s.allocated) :
      i < s.allocated := Nat.lt_of_le_of_ne (Nat.lt_succ_iff.mp hi) hn
  refine ⟨congrArg (· + 1) h.sockets, fun i hi => ?_, fun i hi => ?_⟩
  · by_cases hn : i = s.allocated
    · subst hn
      rw [hnew]
      exact h.sockets
    · rw [hheap i hn]
      exact h.socket i (hlt i hi hn)
  · by_cases hn : i = s.allocated
    · subst hn
      rw [hnew]
      simp [ClientDataSet.new]
    · rw [hheap i hn]
      exact h.queued i (hlt i hi hn)

theorem Registered.tryAcceptStep (h : s.Registered) (target : ℕ) (errorCode : ℤ)
    (pc : TryAcceptPc) :
    (s.assign target ((s.heap target).tryAcceptStep errorCode pc).1).Registered := by
  apply h.assign_same
  all_goals
    cases pc with
    | guard =>
      simp only [ClientDataSet.tryAcceptStep]
      split_ifs <;> rfl
    | fill | post => rfl

theorem Registered.receiveReadyStep (h : s.Registered) (target : ℕ) (pc : ReceiveReadyPc) :
    (s.assign target ((s.heap target).receiveReadyStep pc).1).Registered := by
  apply h.assign_same
  all_goals
    cases pc with
    | guard =>
      simp only [ClientDataSet.receiveReadyStep]
      split_ifs <;> rfl
    | fill | post => rfl

theorem Registered.acceptStep {pc : AcceptPc} (h : s.Registered) (errorCode : ℤ)
    (hk : s.SlotsOk (some pc)) : (s.acceptStep errorCode pc).1.Registered := by
  cases pc with
  | finder | loadCount | loadMax => exact h
  | feedBack target => exact h.assign_same rfl rfl
  | ready target pc => exact h.receiveReadyStep target pc
  | storeCount v => exact h.congr rfl rfl rfl
  | isEmpty currentMax =>
    simp only [EchoServer.acceptStep]
    split_ifs <;> exact h
  | prepare pc =>
    simp only [EchoServer.acceptStep]
    cases pc with
    | loadId | loadMax => exact h
    | create currentId limit =>
      obtain ⟨rfl, -⟩ := hk
      simp only [prepareStep]
      split_ifs
      · exact h.createClient
      · exact h
    | next currentId rest =>
      cases rest with
      | nil => exact h
      | cons id rest =>
        simp only [prepareStep]
        split <;> exact h
    | tryAccept currentId target pc rest => exact h.tryAcceptStep target errorCode pc
    | storeId | storeMax => exact h.congr rfl rfl rfl

theorem Registered.receiveStep (h : s.Registered) (errorCode : ℤ) (pc : ReceivePc) :
    (s.receiveStep errorCode pc).1.Registered := by
  cases pc with
  | finder packet => exact h
  | gather target packet =>
    apply h.assign_same
    · rw [gather_frame]
    · rw [gather_frame]
  | ready target pc => exact h.receiveReadyStep target pc

theorem Registered.disconnectStep (h : s.Registered) (errorCode : ℤ) (pc : DisconnectPc) :
    (s.disconnectStep errorCode pc).1.Registered := by
  cases pc with
  | finder | loadCount => exact h
  | storeCount target v => exact h.congr rfl rfl rfl
  | tryAccept target pc => exact h.tryAcceptStep target errorCode pc

/-- `SendRequest` puts the id of its client into what it queues and posts. -/
theorem Registered.sendRequest (h : s.Registered) (hs : s.Sound) (ht : target < s.allocated)
    (dataSize : ℕ) (messageBuff : BufferPtr) :
    (s.assign target ((s.heap target).sendRequest dataSize messageBuff).1).Registered ∧
      ∀ op ∈ posted target ((s.heap target).sendRequest dataSize messageBuff).2.1,
        s.connected target = true ∧ ∃ o, op = ⟨target, .send (some o)⟩ ∧ o.IsSendOf target := by
  have hr := (hs.sends target ht).inRange
  have hnew : ((s.heap target).newSendContext dataSize messageBuff).IsSendOf target :=
    ⟨rfl, hs.numbered.ids target ht⟩
  refine ⟨?_, sendRequest_posts target hr (h.queued target ht) hnew⟩
  have hpush : ∀ x ∈ ((s.heap target).pushSend
      ((s.heap target).newSendContext dataSize messageBuff)).mSendDataQueue.contents,
      ∃ o, x = some o ∧ o.IsSendOf target := by
    intro x hx
    rcases mem_push hr hx with hx | rfl
    · exact h.queued target ht x hx
    · exact ⟨_, rfl, hnew⟩
  apply h.assign
  · simp only [ClientDataSet.sendRequest]
    split_ifs <;> rfl
  · intro _
    simp only [ClientDataSet.sendRequest]
    split_ifs
    · exact h.queued target ht
    · exact hpush
    · exact hpush

theorem Registered.createClients (n : ℕ) (h : s.Registered) :
    (createClients n s.allocated s).Registered := by
  induction n generalizing s with
  | zero => exact h
  | succ n ih => exact ih h.createClient

theorem Registered.tryAcceptAll (errorCode : ℤ → ℤ) (ids : List ℤ) (h : s.Registered) :
    (tryAcceptAll errorCode ids s).1.Registered := by
  induction ids generalizing s with
  | nil => exact h
  | cons id rest ih =>
    simp only [EchoServer.tryAcceptAll]
    cases s.clientFinder id with
    | none => exact ih h
    | some target =>
      apply ih
      apply h.assign_same
      all_goals
        simp only [ClientDataSet.tryAccept]
        split_ifs <;> rfl

theorem prepareSocket_registered (memory : ℕ → ClientDataSet) (n : ℕ) (errorCode : ℤ → ℤ) :
    ((new memory).prepareSocket n errorCode).1.Registered :=
  (((new_registered memory).createClients n).tryAcceptAll errorCode _).congr rfl rfl rfl

end EchoServer

theorem dispatch_id {c : Completion} {name : QueueName} {packet : Packet}
    (h : dispatch c = some (name, packet)) : ∃ o, c.overlapped = some o ∧ packet.clientID = o.id := by
  obtain ⟨result, bytesTransferred, overlapped, buffer⟩ := c
  cases overlapped with
  | none => exact absurd h (by simp [dispatch])
  | some o =>
    refine ⟨o, rfl, ?_⟩
    simp only [dispatch] at h
    split_ifs at h
    · obtain ⟨-, rfl⟩ := Prod.mk.inj (Option.some.inj h)
      rfl
    · cases ht : o.operationType with
      | opDefault => exact absurd h (by simp [ht])
      | opAccept | opRecv | opSend =>
        rw [ht] at h
        obtain ⟨-, rfl⟩ := Prod.mk.inj (Option.some.inj h)
        rfl
    · obtain ⟨-, rfl⟩ := Prod.mk.inj (Option.some.inj h)
      rfl

theorem dispatch_send {c : Completion} {o : CustomOverlapped} {name : QueueName} {packet : Packet}
    (ho : c.overlapped = some o) (ht : o.operationType = .opSend)
    (h : dispatch c = some (name, packet)) : name.serves = false := by
  simp only [dispatch, ho, ht] at h
  split_ifs at h
  all_goals
    obtain ⟨rfl, -⟩ := Prod.mk.inj (Option.some.inj h)
    rfl

theorem dispatch_accept {c : Completion} {o : CustomOverlapped} {name : QueueName}
    {packet : Packet} (ho : c.overlapped = some o) (ht : o.operationType = .opAccept)
    (h : dispatch c = some (name, packet)) : name = .acceptQueue := by
  simp only [dispatch, ho, ht] at h
  split_ifs at h
  all_goals
    first
    | exact (Prod.mk.inj (Option.some.inj h)).1.symm
    | simp_all

namespace IOCompletionPort

variable {port port' : IOCompletionPort} {name : QueueName} {p : Packet}

theorem PushEffect.transit_subset {out : Option Pushed} (h : PushEffect port port' out)
    (other : QueueName) (hp : p ∈ port'.transit other) : p ∈ port.transit other := by
  cases h with
  | going name pc hprocess ht | accepted name packet hprocess ht =>
    rw [← ht]
    exact hp
  | refused name packet hprocess hfull hlost ht =>
    by_cases hn : name = other
    · subst hn
      rw [hlost]
      exact List.mem_append_left _ hp
    · rw [← ht other hn]
      exact hp

theorem WorkEffect.transit_subset {e : Option (WorkerEvent Packet)}
    (h : WorkEffect port port' name e) (other : QueueName) (hp : p ∈ port'.transit other) :
    p ∈ port.transit other := by
  cases h with
  | quiet hl hc ht | popped d hc ht =>
    rw [← ht]
    exact hp
  | fronted d hc ht ho =>
    by_cases hn : name = other
    · subst hn
      rw [ht]
      exact List.mem_cons_of_mem _ hp
    · rw [← ho other hn]
      exact hp

theorem WorkEffect.called_mem {e : Option (WorkerEvent Packet)}
    (h : WorkEffect port port' name e) (hc : EchoSystem.called e = some p) :
    p ∈ port.transit name := by
  cases h with
  | quiet hl hcall ht | popped d hcall ht => exact absurd hc (by simp [EchoSystem.called])
  | fronted d hcall ht ho =>
    obtain rfl : d = p := Option.some.inj hc
    rw [ht]
    exact List.mem_cons_self

end IOCompletionPort

namespace EchoServer

variable {s s' : EchoServer} {target : ℕ} {op : Posted}

/-- A send in flight is of a client that is connected and carries its id. -/
def SendArmed (s : EchoServer) (op : Posted) : Prop :=
  op.serves = false → ∃ o, op.overlapped = .send (some o) ∧ o.IsSendOf op.owner ∧ s.Live op.owner

def SendLive (s : EchoServer) : Option SendPc → Prop
  | some (.finder packet) => s.Live packet.clientID
  | some (.request target _) => s.Live target
  | none => True

def DisconnectLive (s : EchoServer) : Option DisconnectPc → Prop
  | some (.finder id) => s.Live id
  | _ => True

theorem SendArmed.of_serves (h : op.serves = true) : s.SendArmed op :=
  fun hn => absurd h (by simp [hn])

theorem SendArmed.grows (h : s.SendArmed op) (hg : Grows s s') : s'.SendArmed op := by
  intro hn
  obtain ⟨o, ho, hsend, hlive⟩ := h hn
  exact ⟨o, ho, hsend, hlive.grows hg⟩

theorem SendLive.grows {pc : Option SendPc} (h : s.SendLive pc) (hg : Grows s s') :
    s'.SendLive pc := by
  rcases pc with _ | pc
  · trivial
  · cases pc with
    | finder packet => exact Live.grows h hg
    | request target packet => exact Live.grows h hg

theorem DisconnectLive.grows {pc : Option DisconnectPc} (h : s.DisconnectLive pc)
    (hg : Grows s s') : s'.DisconnectLive pc := by
  rcases pc with _ | pc
  · trivial
  · cases pc with
    | finder id => exact Live.grows h hg
    | loadCount | storeCount | tryAccept => trivial

theorem tryAcceptStep_serves (target : ℕ) (c : ClientDataSet) (errorCode : ℤ) (pc : TryAcceptPc) :
    ∀ op ∈ posted target (c.tryAcceptStep errorCode pc).2.2, op.serves = true := by
  cases pc with
  | guard =>
    simp only [ClientDataSet.tryAcceptStep]
    split_ifs <;> simp
  | fill => simp [ClientDataSet.tryAcceptStep]
  | post => simp [ClientDataSet.tryAcceptStep, posted, Posted.serves]

theorem receiveReadyStep_serves (target : ℕ) (c : ClientDataSet) (pc : ReceiveReadyPc) :
    ∀ op ∈ posted target (c.receiveReadyStep pc).2.2, op.serves = true := by
  cases pc with
  | guard =>
    simp only [ClientDataSet.receiveReadyStep]
    split_ifs <;> simp
  | fill => simp [ClientDataSet.receiveReadyStep]
  | post => simp [ClientDataSet.receiveReadyStep, posted, Posted.serves]

theorem acceptStep_serves (errorCode : ℤ) (pc : AcceptPc) :
    ∀ op ∈ (s.acceptStep errorCode pc).2.2, op.serves = true := by
  cases pc with
  | finder | feedBack | loadCount | storeCount | loadMax => simp [acceptStep]
  | ready target pc => exact receiveReadyStep_serves target _ pc
  | isEmpty currentMax =>
    simp only [acceptStep]
    split_ifs <;> simp
  | prepare pc =>
    simp only [acceptStep]
    cases pc with
    | loadId | storeId | loadMax | storeMax => simp [prepareStep]
    | create currentId limit =>
      simp only [prepareStep]
      split_ifs <;> simp
    | next currentId rest =>
      cases rest with
      | nil => simp [prepareStep]
      | cons id rest =>
        simp only [prepareStep]
        split <;> simp
    | tryAccept currentId target pc rest => exact tryAcceptStep_serves target _ errorCode pc

theorem receiveStep_serves (errorCode : ℤ) (pc : ReceivePc) :
    ∀ op ∈ (s.receiveStep errorCode pc).2.2, op.serves = true := by
  cases pc with
  | finder => simp [receiveStep]
  | gather target packet => simp [receiveStep, gather_posted]
  | ready target pc => exact receiveReadyStep_serves target _ pc

end EchoServer

namespace EchoSystem

variable {s s' : EchoSystem} {a : Act} {out : List Event} {c : Completed}

/-- What routing rests on: the serving part is as it should be, and what is sent or ends is of
clients that are connected. -/
structure Routable (s : EchoSystem) : Prop where
  serving : s.hush.Inv
  shared : s.port.Shared
  idle : s.inHand ≠ none → s.port.process = none
  registered : s.server.Registered
  sends : ∀ op ∈ s.inFlight, s.server.SendArmed op
  packets : ∀ name, name.serves = false → ∀ p ∈ s.port.transit name, s.server.Live p.clientID
  sending : s.server.SendLive s.sendThread
  ending : s.server.DisconnectLive s.disconnectThread

theorem Routable.numbered (h : s.Routable) : s.server.Numbered := h.serving.sound.numbered

theorem Routable.context (h : s.Routable) (hin : s.inHand = some c) :
    ∃ o, s.server.context c.op = some o ∧ o.id = c.op.owner ∧ c.op.owner < s.server.allocated ∧
      (c.op.overlapped = .accept → o.operationType = .opAccept) ∧
      (c.op.serves = false → o.operationType = .opSend) := by
  have hmem : c.op ∈ s.inFlight := by simp [inFlight, hin]
  cases hserves : c.op.serves with
  | true =>
    have harmed : s.server.Armed c.op := by
      apply h.serving.armed
      simp [inFlight, hush, hin, hserves]
    obtain ⟨⟨owner, overlapped⟩, result, bytesTransferred⟩ := c
    obtain ⟨howner, hcontext⟩ := harmed
    cases overlapped with
    | accept => exact ⟨_, congrArg some hcontext, rfl, howner, fun _ => rfl, by simp⟩
    | receive => exact ⟨_, congrArg some hcontext, rfl, howner, by simp, by simp⟩
    | send => exact absurd hserves (by simp [Posted.serves])
  | false =>
    obtain ⟨o, ho, ⟨htype, hid⟩, i, hi, -, he⟩ := h.sends c.op hmem hserves
    obtain rfl : i = c.op.owner := Int.ofNat_inj.mp he
    refine ⟨o, ?_, hid, hi, fun ha => absurd (ha.symm.trans ho) (by simp), fun _ => htype⟩
    simp [EchoServer.context, ho]

/-- A packet names the client that posted the operation it is made from. -/
theorem Routable.dispatched (h : s.Routable) (hin : s.inHand = some c) {name : QueueName}
    {packet : Packet} (hd : dispatch (s.server.completion c) = some (name, packet)) :
    packet.clientID = c.op.owner ∧ c.op.owner < s.server.allocated := by
  obtain ⟨o, ho, hid, howner, -⟩ := h.context hin
  obtain ⟨o', ho', hpacket⟩ := dispatch_id hd
  obtain rfl : o = o' := Option.some.inj (ho.symm.trans ho')
  exact ⟨hpacket.trans hid, howner⟩

theorem Routable.dispatched_live (h : s.Routable) (hin : s.inHand = some c) {name : QueueName}
    {packet : Packet} (hd : dispatch (s.server.completion c) = some (name, packet))
    (hn : name.serves = false) : s.server.Live packet.clientID := by
  obtain ⟨hid, howner⟩ := h.dispatched hin hd
  obtain ⟨o, ho, -, -, haccept, -⟩ := h.context hin
  rw [hid]
  cases hserves : c.op.serves with
  | false =>
    have hmem : c.op ∈ s.inFlight := by simp [inFlight, hin]
    obtain ⟨-, -, -, hlive⟩ := h.sends c.op hmem hserves
    exact hlive
  | true =>
    have hhush : s.hush.inHand = some c := by simp [hush, hin, hserves]
    obtain ⟨⟨owner, overlapped⟩, result, bytesTransferred⟩ := c
    cases overlapped with
    | accept =>
      obtain rfl := dispatch_accept ho (haccept rfl) hd
      exact absurd hn (by simp [QueueName.serves])
    | send => exact absurd hserves (by simp [Posted.serves])
    | receive =>
      have htoken : .serving (owner : ℤ) (if result then
          (s.server.heap owner).mReceiveBuf.take bytesTransferred else []) ∈ s.hush.tokens := by
        simp only [tokens, hhush, Multiset.mem_add, Option.toList_some, total_cons, total_nil,
          Completed.tokens]
        simp [hush]
      obtain ⟨i, hi, hc, he⟩ := h.serving.valid.serving _ _ htoken
      exact ⟨i, hi, hc, he⟩

theorem Routable.disconnectOk (h : s.Routable) : s.server.DisconnectOk s.disconnectThread := by
  have hdis := h.serving.disconnecting
  have hfound : s.hush.disconnectThread = found s.disconnectThread := rfl
  rw [hfound] at hdis
  rcases hd : s.disconnectThread with _ | pc
  · trivial
  · rw [hd] at hdis
    cases pc with
    | finder => trivial
    | loadCount | storeCount | tryAccept => exact hdis

theorem Routable.ending_found {id : ℤ} {target : ℕ} (h : s.Routable)
    (hd : s.disconnectThread = some (.finder id))
    (hf : s.server.clientFinder id = some target) :
    target < s.server.allocated ∧ s.server.connected target = true := by
  have hlive := h.ending
  rw [hd] at hlive
  obtain ⟨i, hi, hc, rfl⟩ := hlive
  obtain ⟨he, -⟩ := h.numbered.finder.mp hf
  obtain rfl := Int.ofNat_inj.mp he
  exact ⟨hi, hc⟩

theorem Routable.serving_step (h : s.Routable) (hs : machine.step s a = some (s', out)) :
    s'.hush.Inv := by
  refine h.serving.hush_step h.idle (fun c hin hserves name packet hd => ?_)
    (fun id target hd hf => h.ending_found hd hf) hs
  obtain ⟨o, ho, -, -, -, htype⟩ := h.context hin
  exact dispatch_send ho (htype hserves) hd

theorem Routable.disconnect_calm {pc : DisconnectPc} (errorCode : ℤ) (h : s.Routable)
    (hpc : s.disconnectThread = some pc) :
    Calm s.server (s.server.disconnectStep errorCode pc).1 ∧
      (s.server.disconnectStep errorCode pc).2.2 = [] := by
  -- `Disconnect` is called for clients that are connected, so it arms nothing
  obtain ⟨hcalm, -, hposted⟩ := disconnectStep_spec errorCode (hpc ▸ h.disconnectOk)
    fun id target he hf => h.ending_found (he ▸ hpc) hf
  exact ⟨hcalm, hposted⟩

theorem Routable.grows (h : s.Routable) (hs : machine.step s a = some (s', out)) :
    Grows s.server s'.server := by
  have hstay : Grows s.server s.server := (Calm.refl s.server).grows
  cases effect_of_step hs with
  | complete op result bytes hop hlen =>
    show Grows s.server (if _ then _ else _)
    split_ifs
    · exact (deliver_still s.server op.owner bytes).grows
    · exact hstay
  | dequeue | begin | push | acceptLoop | receiveLoop | sendLoop | disconnectLoop => exact hstay
  | accept errorCode taken pc hpc =>
    have hk : s.server.SlotsOk (some pc) := hpc ▸ h.serving.slots
    exact (acceptStep_advance errorCode h.serving.sound hk).grows
  | receive taken pc hpc => exact (receiveStep_calm s.server 0 pc).grows
  | send taken pc hpc => exact (sendStep_calm s.server 0 pc).grows
  | disconnect errorCode taken pc hpc =>
    exact (h.disconnect_calm errorCode hpc).1.grows
  | request clientID dataSize messageBuff taken target hf =>
    exact (Calm.assign
      (sendRequest_kept (s.server.heap target) dataSize (.message messageBuff))).grows

theorem Routable.handler_step {server' : EchoServer} {acceptThread' : Option AcceptPc}
    {sendThread' : Option SendPc} {receiveThread' : Option ReceivePc}
    {disconnectThread' : Option DisconnectPc} {ops : List Posted} {taken : Bool} (h : s.Routable)
    (hserving : (hush { s with
      server := server'
      acceptThread := acceptThread'
      sendThread := sendThread'
      receiveThread := receiveThread'
      disconnectThread := disconnectThread'
      outstanding := s.outstanding ++ if taken then ops else [] }).Inv)
    (hg : Grows s.server server') (hr : server'.Registered)
    (hops : ∀ op ∈ ops, server'.SendArmed op) (hsend : server'.SendLive sendThread')
    (hdis : server'.DisconnectLive disconnectThread') :
    Routable { s with
      server := server'
      acceptThread := acceptThread'
      sendThread := sendThread'
      receiveThread := receiveThread'
      disconnectThread := disconnectThread'
      outstanding := s.outstanding ++ if taken then ops else [] } := by
  refine ⟨hserving, h.shared, h.idle, hr, fun op hop => ?_,
    fun name hn p hp => (h.packets name hn p hp).grows hg, hsend, hdis⟩
  simp only [inFlight, List.append_assoc, List.mem_append] at hop
  rcases hop with hop | hop | hop
  · exact (h.sends op (List.mem_append_left _ hop)).grows hg
  · cases taken with
    | true => exact hops op hop
    | false => exact absurd hop List.not_mem_nil
  · exact (h.sends op (List.mem_append_right _ hop)).grows hg

theorem Routable.worker_step {acceptThread' : Option AcceptPc} {sendThread' : Option SendPc}
    {receiveThread' : Option ReceivePc} {disconnectThread' : Option DisconnectPc}
    (h : s.Routable) (name : QueueName)
    (hserving : (hush { s with
      port := (s.port.workerStep name).1
      acceptThread := acceptThread'
      sendThread := sendThread'
      receiveThread := receiveThread'
      disconnectThread := disconnectThread' }).Inv)
    (hsend : s.server.SendLive sendThread') (hdis : s.server.DisconnectLive disconnectThread') :
    Routable { s with
      port := (s.port.workerStep name).1
      acceptThread := acceptThread'
      sendThread := sendThread'
      receiveThread := receiveThread'
      disconnectThread := disconnectThread' } := by
  obtain ⟨hshared, hprocess, -, -, heffect⟩ := IOCompletionPort.workerStep_spec h.shared name
  exact ⟨hserving, hshared, fun hin => hprocess.trans (h.idle hin), h.registered, h.sends,
    fun other hn p hp => h.packets other hn p (heffect.transit_subset other hp), hsend, hdis⟩

theorem Routable.called_mem (h : s.Routable) {name : QueueName} {packet : Packet}
    (hc : called (s.port.workerStep name).2 = some packet) : packet ∈ s.port.transit name := by
  obtain ⟨-, -, -, -, heffect⟩ := IOCompletionPort.workerStep_spec h.shared name
  exact heffect.called_mem hc

theorem Routable.request_step {target : ℕ} {dataSize : ℕ} {messageBuff : BufferPtr} {taken : Bool}
    {sendThread' : Option SendPc} (h : s.Routable) (ht : target < s.server.allocated)
    (hserving : (hush { s with
      server := s.server.assign target
        ((s.server.heap target).sendRequest dataSize messageBuff).1
      sendThread := sendThread'
      outstanding := s.outstanding ++ if taken then
        posted target ((s.server.heap target).sendRequest dataSize messageBuff).2.1
          else [] }).Inv)
    (hsend : s.server.SendLive sendThread') :
    Routable { s with
      server := s.server.assign target
        ((s.server.heap target).sendRequest dataSize messageBuff).1
      sendThread := sendThread'
      outstanding := s.outstanding ++ if taken then
        posted target ((s.server.heap target).sendRequest dataSize messageBuff).2.1 else [] } := by
  obtain ⟨hreg, hposted⟩ := h.registered.sendRequest h.serving.sound ht dataSize messageBuff
  have hcalm := Calm.assign (sendRequest_kept (s.server.heap target) dataSize messageBuff)
  have hg := hcalm.grows
  refine h.handler_step hserving hg hreg (fun op hop _ => ?_) (hsend.grows hg)
    (h.ending.grows hg)
  obtain ⟨hconn, o, rfl, ho⟩ := hposted op hop
  exact ⟨o, rfl, ho, Live.grows ⟨target, ht, hconn, rfl⟩ hg⟩

/-- What is in flight stays in flight or is gone, and the map is not touched. -/
theorem Routable.kernel_step {server' : EchoServer} {outstanding' : List Posted}
    {completed' : List Completed} {inHand' : Option Completed} {port' : IOCompletionPort}
    (h : s.Routable)
    (hserving : (hush { s with
      server := server'
      port := port'
      outstanding := outstanding'
      completed := completed'
      inHand := inHand' }).Inv)
    (hg : Grows s.server server') (hr : server'.Registered) (hshared : port'.Shared)
    (hidle : inHand' ≠ none → port'.process = none)
    (hops : ∀ op ∈ outstanding' ++ (completed' ++ inHand'.toList).map Completed.op, op ∈ s.inFlight)
    (hpackets : ∀ name, name.serves = false → ∀ p ∈ port'.transit name, s.server.Live p.clientID) :
    Routable { s with
      server := server'
      port := port'
      outstanding := outstanding'
      completed := completed'
      inHand := inHand' } :=
  ⟨hserving, hshared, hidle, hr, fun op hop => (h.sends op (hops op hop)).grows hg,
    fun name hn p hp => (hpackets name hn p hp).grows hg, h.sending.grows hg, h.ending.grows hg⟩

theorem Routable.complete_step {op : Posted} {result : Bool} {bytes : List UInt8}
    (h : s.Routable) (hop : op ∈ s.outstanding)
    (hserving : (hush { s with
      server := if op.overlapped = .receive then s.server.deliver op.owner bytes else s.server
      outstanding := s.outstanding.erase op
      completed := ⟨op, result, bytes.length⟩ :: s.completed }).Inv)
    (hg : Grows s.server
      (if op.overlapped = .receive then s.server.deliver op.owner bytes else s.server)) :
    Routable { s with
      server := if op.overlapped = .receive then s.server.deliver op.owner bytes else s.server
      outstanding := s.outstanding.erase op
      completed := ⟨op, result, bytes.length⟩ :: s.completed } := by
  refine h.kernel_step hserving hg ?_ h.shared h.idle (fun op' hop' => ?_) h.packets
  · split_ifs
    · exact h.registered.assign_same rfl rfl
    · exact h.registered
  · simp only [List.cons_append, List.map_cons, List.mem_append, List.mem_cons] at hop'
    rcases hop' with hop' | rfl | hop'
    · exact List.mem_append_left _ (List.mem_of_mem_erase hop')
    · exact List.mem_append_left _ hop
    · exact List.mem_append_right _ hop'

theorem Routable.dequeue_step (h : s.Routable) (hc : c ∈ s.completed)
    (hidle : s.port.process = none)
    (hserving : (hush { s with completed := s.completed.erase c, inHand := some c }).Inv) :
    Routable { s with completed := s.completed.erase c, inHand := some c } := by
  refine h.kernel_step hserving (Calm.refl s.server).grows h.registered h.shared (fun _ => hidle)
    (fun op hop => mem_inFlight_of_taken (fun c' hc' => ?_) hop) h.packets
  rcases List.mem_append.mp hc' with hc' | hc'
  · exact List.mem_append_left _ (List.mem_of_mem_erase hc')
  · rw [List.mem_singleton.mp hc']
    exact List.mem_append_left _ hc

theorem Routable.begin_step (h : s.Routable) (hin : s.inHand = some c)
    (hserving : (hush { s with
      port := s.port.begin (s.server.completion c)
      inHand := none }).Inv) :
    Routable { s with port := s.port.begin (s.server.completion c), inHand := none } := by
  obtain ⟨hshared, htransit⟩ := IOCompletionPort.begin_spec h.shared (h.idle (by simp [hin]))
    (s.server.completion c)
  refine h.kernel_step hserving (Calm.refl s.server).grows h.registered hshared
    (fun hne => absurd rfl hne)
    (fun op hop => mem_inFlight_of_taken (fun c' hc' => ?_) hop) (fun name hn p hp => ?_)
  · exact List.mem_append_left _ (by simpa using hc')
  · rw [htransit, List.mem_append] at hp
    rcases hp with hp | hp
    · exact h.packets name hn p hp
    · obtain ⟨⟨name', packet⟩, hd, hp⟩ : ∃ r, dispatch (s.server.completion c) = some r ∧
          (if r.1 = name then some r.2 else none) = some p := by
        simpa [dispatchTo, Option.bind_eq_some_iff] using hp
      split_ifs at hp with hname
      obtain rfl := Option.some.inj hp
      subst hname
      exact h.dispatched_live hin hd hn

theorem Routable.sending_found (h : s.Routable) {packet : Packet}
    (hpc : s.sendThread = some (.finder packet)) :
    s.server.SendLive ((s.server.clientFinder packet.clientID).map (.request · packet)) := by
  have hlive := h.sending
  rw [hpc] at hlive
  cases hf : s.server.clientFinder packet.clientID with
  | none => trivial
  | some target =>
    obtain ⟨he, -⟩ := h.numbered.finder.mp hf
    show s.server.Live target
    rw [← he]
    exact hlive

theorem disconnectStep_live (server : EchoServer) (errorCode : ℤ) (pc : DisconnectPc)
    {server' : EchoServer} :
    server'.DisconnectLive (server.disconnectStep errorCode pc).2.1 := by
  cases pc with
  | finder id =>
    simp only [disconnectStep]
    cases server.clientFinder id <;> trivial
  | loadCount | storeCount => trivial
  | tryAccept target pc =>
    simp only [disconnectStep]
    cases ((server.heap target).tryAcceptStep errorCode pc).2.1 <;> trivial

theorem Routable.step (h : s.Routable) (hs : machine.step s a = some (s', out)) : s'.Routable := by
  have hserving := h.serving_step hs
  have hg := h.grows hs
  cases effect_of_step hs with
  | complete op result bytes hop hlen => exact h.complete_step hop hserving hg
  | dequeue c hc hin hidle => exact h.dequeue_step hc hidle hserving
  | begin c hin => exact h.begin_step hin hserving
  | push port' e hin hstep =>
    obtain ⟨hshared, -, -, heffect⟩ := IOCompletionPort.processStep_spec h.shared hstep
    exact h.kernel_step hserving hg h.registered hshared (fun hne => absurd hin hne)
      (fun op hop => hop) fun name hn p hp => h.packets name hn p (heffect.transit_subset name hp)
  | acceptLoop errorCode taken hpc =>
    exact h.worker_step .acceptQueue hserving h.sending h.ending
  | accept errorCode taken pc hpc =>
    have hk : s.server.SlotsOk (some pc) := hpc ▸ h.serving.slots
    exact h.handler_step hserving hg (h.registered.acceptStep errorCode hk)
      (fun op hop => .of_serves (acceptStep_serves errorCode pc op hop)) (h.sending.grows hg)
      (h.ending.grows hg)
  | receiveLoop taken hpc =>
    exact h.worker_step .receiveQueue hserving h.sending h.ending
  | receive taken pc hpc =>
    exact h.handler_step hserving hg (h.registered.receiveStep 0 pc)
      (fun op hop => .of_serves (receiveStep_serves 0 pc op hop)) (h.sending.grows hg)
      (h.ending.grows hg)
  | sendLoop taken hpc =>
    refine h.worker_step .sendQueue hserving ?_ h.ending
    cases hc : called (s.port.workerStep .sendQueue).2 with
    | none => trivial
    | some packet => exact h.packets .sendQueue rfl packet (h.called_mem hc)
  | send taken pc hpc =>
    cases pc with
    | finder packet =>
      exact h.handler_step hserving hg h.registered
        (fun op hop => absurd hop (by simp [sendStep])) (h.sending_found hpc) h.ending
    | request target packet =>
      have hlive := h.sending
      rw [hpc] at hlive
      obtain ⟨i, hi, -, he⟩ := hlive
      obtain rfl := Int.ofNat_inj.mp he
      exact h.request_step hi hserving trivial
  | disconnectLoop errorCode taken hpc =>
    refine h.worker_step .disconnectQueue hserving h.sending ?_
    cases hc : called (s.port.workerStep .disconnectQueue).2 with
    | none => trivial
    | some packet => exact h.packets .disconnectQueue rfl packet (h.called_mem hc)
  | disconnect errorCode taken pc hpc =>
    obtain ⟨-, hposted⟩ := h.disconnect_calm errorCode hpc
    exact h.handler_step hserving hg (h.registered.disconnectStep errorCode pc)
      (fun op hop => absurd hop (by simp [hposted])) (h.sending.grows hg)
      (disconnectStep_live s.server errorCode pc)
  | request clientID dataSize messageBuff taken target hf =>
    exact h.request_step (h.numbered.finder.mp hf).2 hserving h.sending

theorem start_routable (memory : ℕ → ClientDataSet) (buffers : QueueName → ℕ → Packet) (n : ℕ)
    (errorCode : ℤ → ℤ) (taken : ℕ → Bool) :
    (start memory buffers n errorCode taken).Routable := by
  have hinv := start_inv memory buffers n errorCode taken
  have hposted := start_outstanding memory buffers n errorCode taken
  refine ⟨hinv.serving, hinv.shared, hinv.idle, prepareSocket_registered memory n errorCode,
    fun op hop => ?_, fun name _ p hp => ?_, trivial, trivial⟩
  · have hmem : op ∈ (start memory buffers n errorCode taken).outstanding := by
      simpa [inFlight, start] using hop
    rw [hposted] at hmem
    obtain ⟨i, -, rfl⟩ := List.mem_map.mp hmem
    exact .of_serves rfl
  · simp [start] at hp

/-- `PrepareSocket` is running. -/
def Preparing (s : EchoSystem) : Prop := ∃ pc, s.acceptThread = some (.prepare pc)

/-- The ids that the handlers are about to call `ClientFinder` with. -/
def lookups (s : EchoSystem) : List ℤ :=
  (match s.acceptThread with
    | some (.finder clientID) => [clientID]
    | _ => []) ++
  (match s.sendThread with
    | some (.finder packet) => [packet.clientID]
    | _ => []) ++
  (match s.receiveThread with
    | some (.finder packet) => [packet.clientID]
    | _ => []) ++
  (match s.disconnectThread with
    | some (.finder clientID) => [clientID]
    | _ => [])

/-- The map numbers its clients, the `n` of `PrepareSocket(n)` first, and a completion goes to the
one that posted the operation. The context it is read from is not being filled meanwhile. -/
structure Routed (s : EchoSystem) (n : ℕ) : Prop where
  prepared : ∀ id < n, (s.server.clientFinder (id : ℕ)).isSome = true
  keys : ¬ s.Preparing → 0 ≤ s.server.accumulatedClientId ∧
    s.server.currentClientMax = s.server.accumulatedClientId ∧
    s.server.keys = (List.range s.server.accumulatedClientId.toNat).map fun i : ℕ => (i : ℤ)
  entries : ∀ id target, s.server.clientFinder id = some target → (s.server.heap target).mID = id
  sockets : ∀ id target id' target', s.server.clientFinder id = some target →
    s.server.clientFinder id' = some target' →
    (s.server.heap target).mClientSocketPtr = (s.server.heap target').mClientSocketPtr → id = id'
  routes : ∀ c name packet, s.inHand = some c →
    dispatch (s.server.completion c) = some (name, packet) →
    s.server.clientFinder packet.clientID = some c.op.owner
  found : ∀ id ∈ s.lookups, (s.server.clientFinder id).isSome = true
  unfilled : ∀ op ∈ s.filling, op ∉ s.inFlight

/-- What `s'`, reached from `s`, still has of it. -/
structure Lasting (s s' : EchoSystem) : Prop where
  entries : ∀ id target, s.server.clientFinder id = some target →
    s'.server.clientFinder id = some target ∧
      (s'.server.heap target).mID = (s.server.heap target).mID ∧
      (s'.server.heap target).mClientSocketPtr = (s.server.heap target).mClientSocketPtr
  routes : ∀ c name packet, s.inHand = some c →
    dispatch (s.server.completion c) = some (name, packet) →
    s'.server.clientFinder packet.clientID = some c.op.owner

theorem Routable.keys (h : s.Routable) (hp : ¬ s.Preparing) :
    0 ≤ s.server.accumulatedClientId ∧
      s.server.currentClientMax = s.server.accumulatedClientId ∧
      s.server.keys =
        (List.range s.server.accumulatedClientId.toNat).map fun i : ℕ => (i : ℤ) := by
  have hset : s.server.Settled := by
    have hslots : s.server.SlotsOk s.acceptThread := h.serving.slots
    rcases hpc : s.acceptThread with _ | pc
    · rw [hpc] at hslots
      exact hslots
    · rw [hpc] at hslots
      cases pc with
      | prepare pc => exact absurd ⟨pc, hpc⟩ hp
      | isEmpty currentMax => exact hslots.1
      | finder | feedBack | ready | loadCount | storeCount | loadMax => exact hslots
  have hmax := hset.slots
  have hid := hset.nextId
  have hkeys := h.numbered.keys_eq
  have hn : s.server.accumulatedClientId.toNat = s.server.allocated := by omega
  rw [hn]
  exact ⟨by omega, by omega, hkeys⟩

theorem Routable.found (h : s.Routable) :
    ∀ id ∈ s.lookups, (s.server.clientFinder id).isSome = true := by
  have hmem {id : ℤ} (hi : ∃ i < s.server.allocated, (i : ℤ) = id) :
      (s.server.clientFinder id).isSome = true := by
    obtain ⟨i, hi, rfl⟩ := hi
    rw [h.numbered.finder.mpr ⟨rfl, hi⟩]
    rfl
  intro id hid
  simp only [lookups, List.mem_append] at hid
  rcases hid with ((hid | hid) | hid) | hid
  · split at hid
    · rename_i clientID hpc
      obtain rfl := List.mem_singleton.mp hid
      obtain ⟨i, hi, he, -⟩ := h.serving.holdsAccept hpc
      exact hmem ⟨i, hi, he⟩
    · exact absurd hid List.not_mem_nil
  · split at hid
    · rename_i packet hpc
      obtain rfl := List.mem_singleton.mp hid
      have hlive := h.sending
      rw [hpc] at hlive
      exact Live.finder hlive h.numbered
    · exact absurd hid List.not_mem_nil
  · split at hid
    · rename_i packet hpc
      obtain rfl := List.mem_singleton.mp hid
      exact hmem (h.serving.holdsReceive hpc)
    · exact absurd hid List.not_mem_nil
  · split at hid
    · rename_i clientID hpc
      obtain rfl := List.mem_singleton.mp hid
      have hlive := h.ending
      rw [hpc] at hlive
      exact Live.finder hlive h.numbered
    · exact absurd hid List.not_mem_nil

theorem hush_filling (s : EchoSystem) :
    s.hush.filling = s.filling ∧ ∀ op ∈ s.filling, op.serves = true := by
  constructor
  · unfold filling hush
    rcases s.disconnectThread with _ | pc
    · rfl
    · cases pc <;> rfl
  · intro op hop
    simp only [filling, List.mem_append] at hop
    rcases hop with (hop | hop) | hop
    all_goals
      split at hop
      all_goals
        first
        | exact absurd hop List.not_mem_nil
        | rw [List.mem_singleton.mp hop]; rfl

theorem mem_hush_inFlight {op : Posted} (h : op ∈ s.inFlight) (hs : op.serves = true) :
    op ∈ s.hush.inFlight := by
  rcases List.mem_append.mp h with hop | hop
  · exact List.mem_append_left _ (List.mem_filter.mpr ⟨hop, hs⟩)
  · obtain ⟨c, hc, rfl⟩ := List.mem_map.mp hop
    apply List.mem_append_right
    apply List.mem_map_of_mem
    simpa [hush, Option.toList_filter, hs] using hc

theorem Routable.unfilled (h : s.Routable) : ∀ op ∈ s.filling, op ∉ s.inFlight := by
  obtain ⟨hsame, hserves⟩ := hush_filling s
  intro op hop hflight
  exact h.serving.filling_apart op (hsame ▸ hop) (mem_hush_inFlight hflight (hserves op hop))

theorem Routable.routes (h : s.Routable) (c : Completed) (name : QueueName) (packet : Packet)
    (hin : s.inHand = some c) (hd : dispatch (s.server.completion c) = some (name, packet)) :
    s.server.clientFinder packet.clientID = some c.op.owner :=
  h.numbered.finder.mpr (h.dispatched hin hd)

theorem Routable.routed {n : ℕ} (h : s.Routable) (hn : n ≤ s.server.allocated) : s.Routed n where
  prepared := by
    intro id hid
    rw [h.numbered.finder.mpr ⟨rfl, hid.trans_le hn⟩]
    rfl
  keys := h.keys
  entries := by
    intro id target hf
    obtain ⟨rfl, ht⟩ := h.numbered.finder.mp hf
    exact h.numbered.ids target ht
  sockets := by
    intro id target id' target' hf hf' hsocket
    obtain ⟨rfl, ht⟩ := h.numbered.finder.mp hf
    obtain ⟨rfl, ht'⟩ := h.numbered.finder.mp hf'
    rw [h.registered.socket target ht, h.registered.socket target' ht'] at hsocket
    exact congrArg _ hsocket
  routes := h.routes
  found := h.found
  unfilled := h.unfilled

theorem Routable.lasting (h : s.Routable) (h' : s'.Routable) (hg : Grows s.server s'.server) :
    Lasting s s' := by
  have hfind (id : ℤ) (target : ℕ) (hf : s.server.clientFinder id = some target) :
      s'.server.clientFinder id = some target := by
    obtain ⟨he, ht⟩ := h.numbered.finder.mp hf
    exact h'.numbered.finder.mpr ⟨he, ht.trans_le hg.allocated⟩
  refine ⟨fun id target hf => ⟨hfind id target hf, ?_, ?_⟩, fun c name packet hin hd => ?_⟩
  · obtain ⟨-, ht⟩ := h.numbered.finder.mp hf
    rw [h.numbered.ids target ht, h'.numbered.ids target (ht.trans_le hg.allocated)]
  · obtain ⟨-, ht⟩ := h.numbered.finder.mp hf
    rw [h.registered.socket target ht, h'.registered.socket target (ht.trans_le hg.allocated)]
  · exact hfind _ _ (h.routes c name packet hin hd)

theorem Routable.along (h : s.Routable) (as : List Act) :
    machine.Along s as fun _ s' => s'.Routable ∧ Grows s.server s'.server := by
  apply Machine.along_of_step
  · exact ⟨h, (Calm.refl s.server).grows⟩
  · rintro es s₁ a s₂ e ⟨h₁, hg⟩ hs
    exact ⟨h₁.step hs, hg.trans (h₁.grows hs)⟩

/-- In every interleaving each completion that makes a packet is routed to the client that posted
the operation, then and ever after. -/
theorem routed_along (memory : ℕ → ClientDataSet) (buffers : QueueName → ℕ → Packet) (n : ℕ)
    (errorCode : ℤ → ℤ) (taken : ℕ → Bool) (as : List Act) :
    machine.Along (start memory buffers n errorCode taken) as fun _ s =>
      s.Routed n ∧ ∀ bs, machine.Along s bs fun _ s' => s.Lasting s' := by
  intro as' es s hp hr
  obtain ⟨h, hg⟩ := (start_routable memory buffers n errorCode taken).along as as' es s hp hr
  have hn : n ≤ s.server.allocated := by
    have hgrown := hg.allocated
    rwa [start_allocated memory buffers n errorCode taken] at hgrown
  refine ⟨h.routed hn, fun bs bs' es' s' hp' hr' => ?_⟩
  obtain ⟨h', hg'⟩ := h.along bs bs' es' s' hp' hr'
  exact h.lasting h' hg'

/-- The only slot is taken: `Accept` goes on to `PrepareSocket`, which adds client 1. -/
example : (machine.run
    (start (fun _ => default) (fun _ _ => default) 1 (fun _ => 0) fun _ => true)
    (oneAccept ++ List.replicate 16 (.accept 0 true))).map (fun r =>
      (r.1.server.keys, r.1.server.currentClientMax, r.1.server.clientFinder 1)) =
        some ([0, 1], 2, some 1) := by decide +kernel

end EchoSystem

end EchoIocp
