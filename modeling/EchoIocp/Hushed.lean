import EchoIocp.Invariant

namespace EchoIocp

open LockFreeCircleQueue ClientDataSet EchoServer EchoSystem
open Custody (Step)

/-- The queues that bring a client on: the other two leave its accept and its receive alone. -/
def QueueName.serves : QueueName → Bool
  | .acceptQueue | .receiveQueue => true
  | .sendQueue | .disconnectQueue => false

def Posted.serves (op : Posted) : Bool :=
  match op.overlapped with
  | .accept | .receive => true
  | .send _ => false

namespace IOCompletionPort

def hush (port : IOCompletionPort) : IOCompletionPort where
  queues name := if name.serves then port.queues name else .new fun _ => default
  workers name := if name.serves then port.workers name else .empty .loadInput
  process := port.process.filter fun p => p.1.serves
  callbackSet := port.callbackSet

variable {port port' : IOCompletionPort} {name : QueueName}

theorem hush_congr (hq : ∀ name, name.serves = true → port'.queues name = port.queues name)
    (hw : ∀ name, name.serves = true → port'.workers name = port.workers name)
    (hp : port'.process.filter (fun p => p.1.serves) = port.process.filter fun p => p.1.serves)
    (hc : port'.callbackSet = port.callbackSet) : port'.hush = port.hush := by
  unfold hush
  congr 1
  · funext name
    split_ifs with hn
    · exact hq name hn
    · rfl
  · funext name
    split_ifs with hn
    · exact hw name hn
    · rfl

@[simp] theorem hush_hush : port.hush.hush = port.hush := by
  apply hush_congr
  · intro name hn
    simp [hush, hn]
  · intro name hn
    simp [hush, hn]
  · simp [hush]
  · rfl

theorem hush_pushing (port : IOCompletionPort) (name : QueueName) :
    port.hush.pushing name = if name.serves then port.pushing name else none := by
  unfold pushing hush
  cases port.process with
  | none => simp
  | some p =>
    by_cases hp : p.1 = name
    · by_cases hn : name.serves = true <;> simp [Option.filter, hp, hn]
    · by_cases hs : p.1.serves = true <;> simp [Option.filter, hp, hs]

theorem hush_shared (h : port.Shared) : port.hush.Shared := by
  intro name
  cases hn : name.serves with
  | true =>
    rw [hush_pushing, hn]
    simpa [hush, hn] using h name
  | false =>
    rw [hush_pushing, hn]
    simpa [hush, hn] using LockFreeCircleQueue.new_shared (T := Packet) fun _ => default

theorem hush_transit (port : IOCompletionPort) (name : QueueName) (h : name.serves = true) :
    port.hush.transit name = port.transit name := by
  unfold transit
  rw [hush_pushing, h]
  simp [hush, h]

theorem hush_transit_silent (port : IOCompletionPort) (name : QueueName)
    (h : name.serves = false) : port.hush.transit name = [] := by
  unfold transit
  rw [hush_pushing, h]
  simp [hush, h, unhanded, WorkerPc.lingering]

theorem hush_tokens (port : IOCompletionPort) :
    port.tokens = total (Packet.tokens · .disconnectQueue) (port.transit .disconnectQueue) +
      port.hush.tokens := by
  -- only the packets that end connections have tokens there is no need for
  unfold tokens
  rw [hush_transit port .acceptQueue rfl, hush_transit port .receiveQueue rfl,
    hush_transit_silent port .disconnectQueue rfl, total_nil]
  abel

theorem hush_processStep {pc : PushPc Packet} {e : Option Pushed} (hn : name.serves = true)
    (hp : port.process = some (name, pc)) (hs : port.processStep = some (port', e)) :
    ∃ port₁, port.hush.processStep = some (port₁, e) ∧ port₁.hush = port'.hush := by
  have hh : port.hush.process = some (name, pc) := by simp [hush, hp, hn]
  have hq : port.hush.queues name = port.queues name := by simp [hush, hn]
  have hkeep (q : LockFreeCircleQueue Packet) (process : Option (QueueName × PushPc Packet)) :
      ({ port.hush with
          queues := Function.update port.hush.queues name q
          process } : IOCompletionPort).hush =
        ({ port with
          queues := Function.update port.queues name q
          process } : IOCompletionPort).hush := by
    apply hush_congr
    · intro other ho
      by_cases hother : other = name
      · simp [hother]
      · simp [Function.update_of_ne hother, hush, ho]
    · intro other ho
      simp [hush, ho]
    · rfl
    · rfl
  simp only [processStep, hp, hh, Option.map_some, hq, Option.some.injEq] at hs ⊢
  split at hs
  · obtain ⟨rfl, rfl⟩ := Prod.mk.inj hs
    exact ⟨_, rfl, hkeep _ _⟩
  · obtain ⟨rfl, rfl⟩ := Prod.mk.inj hs
    exact ⟨_, rfl, hkeep _ _⟩

theorem hush_processStep_silent {pc : PushPc Packet} {e : Option Pushed}
    (hn : name.serves = false) (hp : port.process = some (name, pc))
    (hs : port.processStep = some (port', e)) : port'.hush = port.hush := by
  have hkeep (q : LockFreeCircleQueue Packet) (process : Option (QueueName × PushPc Packet))
      (hprocess : ∀ p, process = some p → p.1 = name) :
      ({ port with
          queues := Function.update port.queues name q
          process } : IOCompletionPort).hush = port.hush := by
    apply hush_congr
    · intro other ho
      have hother : other ≠ name := fun he => by simp [he, hn] at ho
      exact Function.update_of_ne hother _ _
    · exact fun _ _ => rfl
    · have hnone : process.filter (fun p => p.1.serves) = none := by
        rw [Option.filter_eq_none_iff]
        intro p hsome
        simp [hprocess p hsome, hn]
      rw [hp]
      exact hnone.trans (Option.filter_some_neg (a := (name, pc)) hn).symm
    · rfl
  simp only [processStep, hp, Option.map_some, Option.some.injEq] at hs
  split at hs
  · obtain ⟨rfl, rfl⟩ := Prod.mk.inj hs
    exact hkeep _ _ (by simp)
  · obtain ⟨rfl, rfl⟩ := Prod.mk.inj hs
    exact hkeep _ _ (by simp)

theorem hush_workerStep (port : IOCompletionPort) (name : QueueName) (hn : name.serves = true) :
    (port.hush.workerStep name).2 = (port.workerStep name).2 ∧
      (port.hush.workerStep name).1.hush = (port.workerStep name).1.hush := by
  have hq : port.hush.queues name = port.queues name := by simp [hush, hn]
  have hw : port.hush.workers name = port.workers name := by simp [hush, hn]
  have hc : port.hush.callbackSet = port.callbackSet := rfl
  simp only [workerStep, hq, hw, hc]
  refine ⟨trivial, hush_congr ?_ ?_ ?_ rfl⟩
  · intro other ho
    by_cases hother : other = name
    · simp [hother]
    · simp [Function.update_of_ne hother, hush, ho]
  · intro other ho
    by_cases hother : other = name
    · simp [hother]
    · simp [Function.update_of_ne hother, hush, ho]
  · simp [hush]

theorem hush_workerStep_silent (hn : name.serves = false) :
    (port.workerStep name).1.hush = port.hush := by
  have hne (other : QueueName) (ho : other.serves = true) : other ≠ name :=
    fun he => by simp [he, hn] at ho
  apply hush_congr
  · exact fun other ho => Function.update_of_ne (hne other ho) _ _
  · exact fun other ho => Function.update_of_ne (hne other ho) _ _
  · rfl
  · rfl

theorem hush_begin (c : Completion) : (port.hush.begin c).hush = (port.begin c).hush := by
  apply hush_congr
  · intro name hn
    simp [begin, hush, hn]
  · intro name hn
    simp [begin, hush, hn]
  · rfl
  · rfl

theorem hush_begin_silent {c : Completion} (hidle : port.process = none)
    (hn : ∀ name packet, dispatch c = some (name, packet) → name.serves = false) :
    (port.begin c).hush = port.hush := by
  apply hush_congr
  · exact fun _ _ => rfl
  · exact fun _ _ => rfl
  · rw [hidle, Option.filter_none, Option.filter_eq_none_iff]
    intro p hp
    obtain ⟨⟨name, packet⟩, hd, rfl⟩ := Option.map_eq_some_iff.mp hp
    simp [hn name packet hd]
  · rfl

end IOCompletionPort

namespace EchoSystem

/-- A thread that is ending a connection is heard of when it has found the client. -/
def found : Option DisconnectPc → Option DisconnectPc
  | some (.finder _) => none
  | pc => pc

def hush (s : EchoSystem) : EchoSystem :=
  { s with
    port := s.port.hush
    outstanding := s.outstanding.filter Posted.serves
    completed := s.completed.filter fun c => c.op.serves
    inHand := s.inHand.filter fun c => c.op.serves
    sendThread := none
    disconnectThread := found s.disconnectThread }

variable {s s' t : EchoSystem}

theorem hush_congr (hserver : t.server = s.server) (hport : t.port.hush = s.port.hush)
    (ho : t.outstanding.filter Posted.serves = s.outstanding.filter Posted.serves)
    (hc : t.completed.filter (fun c => c.op.serves) = s.completed.filter fun c => c.op.serves)
    (hin : t.inHand.filter (fun c => c.op.serves) = s.inHand.filter fun c => c.op.serves)
    (ha : t.acceptThread = s.acceptThread) (hr : t.receiveThread = s.receiveThread)
    (hd : found t.disconnectThread = found s.disconnectThread) : t.hush = s.hush := by
  unfold hush
  rw [hserver, hport, ho, hc, hin, ha, hr, hd]

@[simp] theorem found_found (pc : Option DisconnectPc) : found (found pc) = found pc := by
  rcases pc with _ | pc
  · rfl
  · cases pc <;> rfl

theorem total_filter {α : Type} {f : α → Multiset ClientToken} {p : α → Bool} {l : List α}
    (h : ∀ a ∈ l, p a = false → f a = 0) : total f (l.filter p) = total f l := by
  induction l with
  | nil => rfl
  | cons a l ih =>
    have hl := ih fun b hb => h b (List.mem_cons_of_mem _ hb)
    cases hp : p a with
    | true => rw [List.filter_cons_of_pos hp, total_cons, total_cons, hl]
    | false =>
      have hzero := h a (by simp) hp
      rw [List.filter_cons_of_neg (by simp [hp]), total_cons, hl, hzero, zero_add]

theorem hush_tokens (s : EchoSystem) : ∃ lost, s.tokens = lost + s.hush.tokens := by
  have hposted : total Posted.tokens (s.outstanding.filter Posted.serves) =
      total Posted.tokens s.outstanding := by
    apply total_filter
    rintro ⟨owner, overlapped⟩ - hs
    cases overlapped with
    | accept | receive => exact absurd hs (by simp [Posted.serves])
    | send => rfl
  have hcompleted (l : List Completed) :
      total (Completed.tokens s.server) (l.filter fun c => c.op.serves) =
        total (Completed.tokens s.server) l := by
    apply total_filter
    rintro ⟨⟨owner, overlapped⟩, result, bytesTransferred⟩ - hs
    cases overlapped with
    | accept | receive => exact absurd hs (by simp [Posted.serves])
    | send => rfl
  have hthread : ∃ lost, disconnectTokens s.disconnectThread =
      lost + disconnectTokens (found s.disconnectThread) := by
    rcases s.disconnectThread with _ | pc
    · exact ⟨0, rfl⟩
    · cases pc with
      | finder id => exact ⟨{.serving id []}, rfl⟩
      | loadCount | storeCount | tryAccept => exact ⟨0, rfl⟩
  obtain ⟨lost, hlost⟩ := hthread
  refine ⟨total (Packet.tokens · .disconnectQueue) (s.port.transit .disconnectQueue) + lost, ?_⟩
  simp only [tokens, hush, hposted, hcompleted, Option.toList_filter, hlost,
    IOCompletionPort.hush_tokens s.port]
  abel

/-- What the invariant says, it says of the serving part as well. -/
theorem Inv.serving (h : s.Inv) : s.hush.Inv := by
  obtain ⟨lost, htokens⟩ := hush_tokens s
  have hlost : Step s.custody s.hush.custody (.shed lost) := .shed lost htokens rfl rfl
  have hin (c : Completed) (hc : c ∈ s.hush.completed ++ s.hush.inHand.toList) :
      c ∈ s.completed ++ s.inHand.toList := by
    simp only [hush, Option.toList_filter, ← List.filter_append] at hc
    exact List.mem_of_mem_filter hc
  refine ⟨IOCompletionPort.hush_shared h.shared, fun hne => ?_, h.sound, h.valid.step hlost,
    fun op hop => ?_, h.accepting, h.receiving, fun c hc => h.sends c (hin c hc), h.slots,
    ⟨h.counter.count, h.counter.accept, fun target v hv => ?_⟩, trivial, ?_⟩
  · have hprocess : s.port.process = none := h.idle fun hnone => hne (by simp [hush, hnone])
    simp [hush, IOCompletionPort.hush, hprocess]
  · apply h.armed
    rcases List.mem_append.mp hop with hop | hop
    · exact List.mem_append_left _ (List.mem_of_mem_filter hop)
    · obtain ⟨c, hc, rfl⟩ := List.mem_map.mp hop
      exact List.mem_append_right _ (List.mem_map_of_mem (hin c hc))
  · apply h.counter.disconnect target v
    have hfound : found s.disconnectThread = some (.storeCount target v) := hv
    rcases hd : s.disconnectThread with _ | pc
    · simp [hd, found] at hfound
    · cases pc <;> simp_all [found]
  · have hdis := h.disconnecting
    show s.server.DisconnectOk (found s.disconnectThread)
    rcases hd : s.disconnectThread with _ | pc
    · trivial
    · rw [hd] at hdis
      cases pc with
      | finder => trivial
      | loadCount | storeCount | tryAccept => exact hdis

theorem Inv.of_hush (h : t.Inv) (he : t.hush = s.hush) : s.hush.Inv := he ▸ h.serving

/-- The serving part takes the step `a` and is then that of `s'`. -/
def Follows (s : EchoSystem) (a : Act) (s' : EchoSystem) : Prop :=
  ∃ t out, machine.step s.hush a = some (t, out) ∧ t.hush = s'.hush

theorem Inv.follow {a : Act} (h : s.hush.Inv) (hf : Follows s a s') (ha : SendsTransfer a) :
    s'.hush.Inv := by
  obtain ⟨t, out, hs, ht⟩ := hf
  exact (h.step ha hs).1.of_hush ht

theorem filter_serves (l : List Posted) :
    (l.filter Posted.serves).filter Posted.serves = l.filter Posted.serves := by simp

variable {op : Posted} {result : Bool} {bytes : List UInt8} {c : Completed}

theorem follows_complete (hop : op ∈ s.outstanding) (hserves : op.serves = true)
    (hlen : op.overlapped = .receive → bytes.length ≤ maxSockRecvBuf) :
    Follows s (.complete op result bytes) { s with
      server := if op.overlapped = .receive then s.server.deliver op.owner bytes else s.server
      outstanding := s.outstanding.erase op
      completed := ⟨op, result, bytes.length⟩ :: s.completed } := by
  have hmem : op ∈ s.hush.outstanding := List.mem_filter.mpr ⟨hop, hserves⟩
  refine ⟨_, _, if_pos ⟨hmem, hlen⟩, hush_congr rfl ?_ ?_ ?_ ?_ rfl rfl ?_⟩
  · exact IOCompletionPort.hush_hush
  · show ((s.outstanding.filter Posted.serves).erase op).filter Posted.serves = _
    rw [List.erase_filter, filter_serves]
  · simp [hush, hserves]
  · simp [hush]
  · exact found_found s.disconnectThread

theorem follows_dequeue (hc : c ∈ s.completed) (hserves : c.op.serves = true)
    (hin : s.inHand = none) (hidle : s.port.process = none) :
    Follows s (.dequeue c) { s with completed := s.completed.erase c, inHand := some c } := by
  have hmem : c ∈ s.hush.completed := List.mem_filter.mpr ⟨hc, hserves⟩
  have hnone : s.hush.inHand = none := by simp [hush, hin]
  have hprocess : s.hush.port.process = none := by simp [hush, IOCompletionPort.hush, hidle]
  refine ⟨_, _, if_pos ⟨hmem, hnone, by rw [hprocess]; rfl⟩, hush_congr rfl ?_ ?_ ?_ ?_ rfl rfl ?_⟩
  · exact IOCompletionPort.hush_hush
  · exact filter_serves _
  · show ((s.completed.filter fun c => c.op.serves).erase c).filter (fun c => c.op.serves) = _
    rw [List.erase_filter, List.filter_filter]
    simp
  · rfl
  · exact found_found s.disconnectThread

theorem follows_begin (hin : s.inHand = some c) (hserves : c.op.serves = true) :
    Follows s .process { s with port := s.port.begin (s.server.completion c), inHand := none } := by
  have hhush : s.hush.inHand = some c := by simp [hush, hin, hserves]
  refine ⟨{ s.hush with
    port := s.hush.port.begin (s.server.completion c)
    inHand := none }, [], ?_, hush_congr rfl ?_ ?_ ?_ rfl rfl rfl ?_⟩
  · simp only [machine, hhush]
    rfl
  · exact IOCompletionPort.hush_begin _
  · exact filter_serves _
  · simp [hush]
  · exact found_found s.disconnectThread

theorem hush_handled {server' : EchoServer} {ops : List Posted} {accepting : Option AcceptPc}
    {sending sending' : Option SendPc} {receiving : Option ReceivePc}
    {ending ending' : Option DisconnectPc} (hd : found ending = found ending') :
    hush { s.hush with
      server := server'
      outstanding := s.hush.outstanding ++ ops
      acceptThread := accepting
      sendThread := sending
      receiveThread := receiving
      disconnectThread := ending } =
    hush { s with
      server := server'
      outstanding := s.outstanding ++ ops
      acceptThread := accepting
      sendThread := sending'
      receiveThread := receiving
      disconnectThread := ending' } := by
  refine hush_congr rfl ?_ ?_ ?_ ?_ rfl rfl hd
  · exact IOCompletionPort.hush_hush
  · rw [List.filter_append, List.filter_append]
    exact congrArg (· ++ _) (filter_serves _)
  · simp [hush]
  · simp [hush]

theorem hush_worked {port₁ port' : IOCompletionPort} {accepting : Option AcceptPc}
    {receiving : Option ReceivePc} (hport : port₁.hush = port'.hush) :
    hush { s.hush with
      port := port₁
      acceptThread := accepting
      receiveThread := receiving } =
    hush { s with
      port := port'
      acceptThread := accepting
      receiveThread := receiving } := by
  refine hush_congr rfl hport ?_ ?_ ?_ rfl rfl ?_
  · exact filter_serves _
  · simp [hush]
  · simp [hush]
  · exact found_found s.disconnectThread

theorem follows_push {port' : IOCompletionPort} {e : Option IOCompletionPort.Pushed}
    {name : QueueName} {pc : PushPc Packet} (hin : s.inHand = none)
    (hp : s.port.process = some (name, pc)) (hserves : name.serves = true)
    (hs : s.port.processStep = some (port', e)) : Follows s .process { s with port := port' } := by
  have hnone : s.hush.inHand = none := by simp [hush, hin]
  obtain ⟨port₁, hstep, hport⟩ := IOCompletionPort.hush_processStep hserves hp hs
  refine ⟨{ s.hush with port := port₁ }, (e.map .pushed).toList, ?_, hush_worked hport⟩
  simp only [machine, hnone]
  rw [show s.hush.port = s.port.hush from rfl, hstep]
  rfl

theorem follows_acceptLoop (errorCode : ℤ) (taken : Bool) (hpc : s.acceptThread = none) :
    Follows s (.accept errorCode taken) { s with
      port := (s.port.workerStep .acceptQueue).1
      acceptThread := (called (s.port.workerStep .acceptQueue).2).map
        fun packet => .finder packet.clientID } := by
  obtain ⟨hevent, hport⟩ := IOCompletionPort.hush_workerStep s.port .acceptQueue rfl
  have hnone : s.hush.acceptThread = none := hpc
  rw [← hevent]
  refine ⟨{ s.hush with
    port := (s.port.hush.workerStep .acceptQueue).1
    acceptThread := (called (s.port.hush.workerStep .acceptQueue).2).map
      fun packet => .finder packet.clientID }, [], ?_, hush_worked hport⟩
  simp only [machine, hnone]
  rfl

theorem follows_accept (errorCode : ℤ) (taken : Bool) {pc : AcceptPc}
    (hpc : s.acceptThread = some pc) :
    Follows s (.accept errorCode taken) { s with
      server := (s.server.acceptStep errorCode pc).1
      acceptThread := (s.server.acceptStep errorCode pc).2.1
      outstanding := s.outstanding ++
        if taken then (s.server.acceptStep errorCode pc).2.2 else [] } := by
  have hsome : s.hush.acceptThread = some pc := hpc
  refine ⟨{ s.hush with
    server := (s.server.acceptStep errorCode pc).1
    acceptThread := (s.server.acceptStep errorCode pc).2.1
    outstanding := s.hush.outstanding ++
      if taken then (s.server.acceptStep errorCode pc).2.2 else [] }, [], ?_,
    hush_handled (found_found s.disconnectThread)⟩
  simp only [machine, hsome]
  rfl

theorem follows_receiveLoop (taken : Bool) (hpc : s.receiveThread = none) :
    Follows s (.receive taken) { s with
      port := (s.port.workerStep .receiveQueue).1
      receiveThread := (called (s.port.workerStep .receiveQueue).2).map .finder } := by
  obtain ⟨hevent, hport⟩ := IOCompletionPort.hush_workerStep s.port .receiveQueue rfl
  have hnone : s.hush.receiveThread = none := hpc
  rw [← hevent]
  refine ⟨{ s.hush with
    port := (s.port.hush.workerStep .receiveQueue).1
    receiveThread := (called (s.port.hush.workerStep .receiveQueue).2).map .finder }, [], ?_,
    hush_worked hport⟩
  simp only [machine, hnone]
  rfl

theorem follows_receive (taken : Bool) {pc : ReceivePc} (hpc : s.receiveThread = some pc) :
    Follows s (.receive taken) { s with
      server := (s.server.receiveStep 0 pc).1
      receiveThread := (s.server.receiveStep 0 pc).2.1
      outstanding := s.outstanding ++
        if taken then (s.server.receiveStep 0 pc).2.2 else [] } := by
  have hsome : s.hush.receiveThread = some pc := hpc
  refine ⟨{ s.hush with
    server := (s.server.receiveStep 0 pc).1
    receiveThread := (s.server.receiveStep 0 pc).2.1
    outstanding := s.hush.outstanding ++
      if taken then (s.server.receiveStep 0 pc).2.2 else [] }, handing pc, ?_,
    hush_handled (found_found s.disconnectThread)⟩
  simp only [machine, hsome]
  rfl

theorem follows_disconnect (errorCode : ℤ) (taken : Bool) {pc : DisconnectPc}
    (hpc : s.disconnectThread = some pc) (hfound : ∀ id, pc ≠ .finder id) :
    Follows s (.disconnect errorCode taken) { s with
      server := (s.server.disconnectStep errorCode pc).1
      disconnectThread := (s.server.disconnectStep errorCode pc).2.1
      outstanding := s.outstanding ++
        if taken then (s.server.disconnectStep errorCode pc).2.2 else [] } := by
  have hsome : s.hush.disconnectThread = some pc := by
    show found s.disconnectThread = some pc
    rw [hpc]
    cases pc with
    | finder id => exact absurd rfl (hfound id)
    | loadCount | storeCount | tryAccept => rfl
  refine ⟨{ s.hush with
    server := (s.server.disconnectStep errorCode pc).1
    disconnectThread := (s.server.disconnectStep errorCode pc).2.1
    outstanding := s.hush.outstanding ++
      if taken then (s.server.disconnectStep errorCode pc).2.2 else [] }, [], ?_,
    hush_handled rfl⟩
  simp only [machine, hsome]
  rfl

/-- A client is found whose connection has ended; its slot stays connected. -/
theorem Inv.hush_found {id : ℤ} (taken : Bool) (h : s.hush.Inv)
    (hlive : ∀ target, s.server.clientFinder id = some target →
      target < s.server.allocated ∧ s.server.connected target = true)
    (hd : s.disconnectThread = some (.finder id)) :
    (hush { s with
      disconnectThread := (s.server.clientFinder id).map .loadCount
      outstanding := s.outstanding ++ if taken then [] else [] }).Inv := by
  have hnone : s.hush.disconnectThread = none := by
    show found s.disconnectThread = none
    rw [hd]
    rfl
  have hops : s.outstanding ++ (if taken then [] else []) = s.outstanding := by
    cases taken <;> exact List.append_nil _
  rw [hops]
  cases hf : s.server.clientFinder id with
  | none =>
    have hsame : hush { s with disconnectThread := none } = s.hush :=
      hush_congr rfl rfl rfl rfl rfl rfl rfl (by rw [hd]; rfl)
    rw [Option.map_none, hsame]
    exact h
  | some target =>
    have hcounter := h.counter
    have htokens : tokens (hush { s with disconnectThread := some (.loadCount target) }) =
        s.hush.tokens := by
      unfold tokens
      rw [hnone]
      rfl
    have hcustody : (hush { s with disconnectThread := some (.loadCount target) }).custody =
        s.hush.custody := congrArg s.server.custody htokens
    rw [hnone] at hcounter
    exact ⟨h.shared, h.idle, h.sound, hcustody ▸ h.valid, h.armed, h.accepting, h.receiving,
      h.sends, h.slots, ⟨hcounter.count, hcounter.accept, by simp [hush, found]⟩, h.sending,
      hlive target hf⟩

theorem sendRequest_silent (target : ℕ) (c : ClientDataSet) (dataSize : ℕ)
    (messageBuff : BufferPtr) :
    (posted target (c.sendRequest dataSize messageBuff).2.1).filter Posted.serves = [] := by
  simp only [sendRequest]
  split_ifs <;> simp [posted, sendInternalWork, Posted.serves]

theorem Inv.hush_request {target : ℕ} {dataSize : ℕ} {messageBuff : BufferPtr}
    {taken : Bool} {thread' : Option SendPc} (h : s.hush.Inv) :
    (hush { s with
      server := s.server.assign target
        ((s.server.heap target).sendRequest dataSize messageBuff).1
      sendThread := thread'
      outstanding := s.outstanding ++ if taken then
        posted target ((s.server.heap target).sendRequest dataSize messageBuff).2.1
          else [] }).Inv := by
  have hcalm : Calm s.hush.server (s.server.assign target
      ((s.server.heap target).sendRequest dataSize messageBuff).1) :=
    Calm.assign (sendRequest_kept _ _ _)
  have hposted : (if taken then posted target
      ((s.server.heap target).sendRequest dataSize messageBuff).2.1 else []).filter
        Posted.serves = [] := by
    cases taken
    · rfl
    · exact sendRequest_silent _ _ _ _
  apply Inv.of_hush (t := { s.hush with
    server := s.server.assign target ((s.server.heap target).sendRequest dataSize messageBuff).1
    sendThread := none
    outstanding := s.hush.outstanding ++ if false then [] else [] })
  · exact (h.sending_step (a := .process) hcalm rfl (by simp) (by trivial)).1
  · refine hush_congr rfl ?_ ?_ ?_ ?_ rfl rfl ?_
    · exact IOCompletionPort.hush_hush
    · rw [List.filter_append, List.filter_append, hposted]
      simp [hush]
    · simp [hush]
    · simp [hush]
    · exact found_found s.disconnectThread

theorem stays_complete (hserves : op.serves = false) :
    hush { s with
      server := if op.overlapped = .receive then s.server.deliver op.owner bytes else s.server
      outstanding := s.outstanding.erase op
      completed := ⟨op, result, bytes.length⟩ :: s.completed } = s.hush := by
  have hne : op.overlapped ≠ .receive := fun he => by simp [Posted.serves, he] at hserves
  refine hush_congr (if_neg hne) rfl ?_ ?_ rfl rfl rfl rfl
  · show (s.outstanding.erase op).filter Posted.serves = _
    rw [← List.erase_filter, List.erase_of_not_mem]
    simp [hserves]
  · exact List.filter_cons_of_neg (by simp [hserves])

theorem stays_dequeue (hserves : c.op.serves = false) (hin : s.inHand = none) :
    hush { s with completed := s.completed.erase c, inHand := some c } = s.hush := by
  refine hush_congr rfl rfl rfl ?_ ?_ rfl rfl rfl
  · show (s.completed.erase c).filter (fun c => c.op.serves) = _
    rw [← List.erase_filter, List.erase_of_not_mem]
    simp [hserves]
  · rw [hin]
    exact Option.filter_some_neg (a := c) hserves

theorem stays_begin (hserves : c.op.serves = false) (hin : s.inHand = some c)
    (hidle : s.port.process = none)
    (hsilent : ∀ name packet, dispatch (s.server.completion c) = some (name, packet) →
      name.serves = false) :
    hush { s with port := s.port.begin (s.server.completion c), inHand := none } = s.hush := by
  refine hush_congr rfl ?_ rfl rfl ?_ rfl rfl rfl
  · exact IOCompletionPort.hush_begin_silent hidle hsilent
  · rw [hin]
    exact (Option.filter_some_neg (a := c) hserves).symm

/-- Every step of the server keeps the invariant of the serving part, if sends and the end of a
connection make packets for the other queues only, and only clients that are connected end. -/
theorem Inv.hush_step {a : Act} {out : List Event} (h : s.hush.Inv)
    (hidle : s.inHand ≠ none → s.port.process = none)
    (hsilent : ∀ c, s.inHand = some c → c.op.serves = false → ∀ name packet,
      dispatch (s.server.completion c) = some (name, packet) → name.serves = false)
    (hlive : ∀ id target, s.disconnectThread = some (.finder id) →
      s.server.clientFinder id = some target →
        target < s.server.allocated ∧ s.server.connected target = true)
    (hs : machine.step s a = some (s', out)) : s'.hush.Inv := by
  -- a step that is not followed leaves the serving part as it is
  have hstay (he : s'.hush = s.hush) : s'.hush.Inv := he ▸ h
  cases effect_of_step hs with
  | complete op result bytes hop hlen =>
    cases hserves : op.serves with
    | true =>
      refine h.follow (follows_complete hop hserves hlen) ?_
      obtain ⟨owner, overlapped⟩ := op
      cases overlapped with
      | accept | receive => trivial
      | send => exact absurd hserves (by simp [Posted.serves])
    | false => exact hstay (stays_complete hserves)
  | dequeue c hc hin hp =>
    cases hserves : c.op.serves with
    | true => exact h.follow (follows_dequeue hc hserves hin hp) trivial
    | false => exact hstay (stays_dequeue hserves hin)
  | begin c hin =>
    cases hserves : c.op.serves with
    | true => exact h.follow (follows_begin hin hserves) trivial
    | false =>
      exact hstay (stays_begin hserves hin (hidle (by simp [hin])) (hsilent c hin hserves))
  | push port' e hin hstep =>
    obtain ⟨⟨name, pc⟩, hp, -⟩ := Option.map_eq_some_iff.mp hstep
    cases hserves : name.serves with
    | true => exact h.follow (follows_push hin hp hserves hstep) trivial
    | false =>
      apply hstay
      exact hush_congr rfl (IOCompletionPort.hush_processStep_silent hserves hp hstep)
        rfl rfl rfl rfl rfl rfl
  | acceptLoop errorCode taken hpc =>
    exact h.follow (follows_acceptLoop errorCode taken hpc) trivial
  | accept errorCode taken pc hpc => exact h.follow (follows_accept errorCode taken hpc) trivial
  | receiveLoop taken hpc => exact h.follow (follows_receiveLoop taken hpc) trivial
  | receive taken pc hpc => exact h.follow (follows_receive taken hpc) trivial
  | sendLoop taken hpc =>
    apply hstay
    exact hush_congr rfl (IOCompletionPort.hush_workerStep_silent rfl) rfl rfl rfl rfl rfl rfl
  | send taken pc hpc =>
    cases pc with
    | finder packet =>
      apply hstay
      refine hush_congr rfl rfl ?_ rfl rfl rfl rfl rfl
      cases taken <;> simp [sendStep]
    | request target packet => exact h.hush_request
  | disconnectLoop errorCode taken hpc =>
    apply hstay
    refine hush_congr rfl (IOCompletionPort.hush_workerStep_silent rfl) rfl rfl rfl rfl rfl ?_
    rw [hpc]
    cases called (s.port.workerStep .disconnectQueue).2 <;> rfl
  | disconnect errorCode taken pc hpc =>
    cases pc with
    | finder id => exact h.hush_found taken (fun target => hlive id target hpc) hpc
    | loadCount | storeCount | tryAccept =>
      exact h.follow (follows_disconnect errorCode taken hpc (by simp)) trivial
  | request clientID dataSize messageBuff taken target hf => exact h.hush_request

end EchoSystem

end EchoIocp
