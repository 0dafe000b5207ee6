import EchoIocp.Tokens

namespace EchoIocp

open LockFreeCircleQueue ClientDataSet EchoServer
open Custody (Step Label Moves)

namespace EchoSystem

def inFlight (s : EchoSystem) : List Posted :=
  s.outstanding ++ (s.completed ++ s.inHand.toList).map Completed.op

structure Inv (s : EchoSystem) : Prop where
  shared : s.port.Shared
  idle : s.inHand ≠ none → s.port.process = none
  sound : s.server.Sound
  valid : s.custody.Valid
  armed : ∀ op ∈ s.inFlight, s.server.Armed op
  accepting : ∀ op ∈ acceptPosting s.acceptThread, s.server.Armed op
  receiving : ∀ op ∈ receivePosting s.receiveThread, s.server.Armed op
  sends : ∀ c ∈ s.completed ++ s.inHand.toList, ∀ context, c.op.overlapped = .send context →
    c.bytesTransferred ≠ 0
  slots : s.server.SlotsOk s.acceptThread
  counter : CounterOk s.server s.acceptThread s.disconnectThread
  sending : s.server.SendOk s.sendThread
  disconnecting : s.server.DisconnectOk s.disconnectThread

/-- A send that completes has moved bytes. -/
def SendsTransfer : Act → Prop
  | .complete ⟨_, .send _⟩ _ bytes => bytes ≠ []
  | _ => True

/-- What the kernel delivered to client `i`. -/
def deliveredTo (i : ℤ) (es : List Event) : List UInt8 :=
  es.flatMap fun
    | .delivered owner bytes => if (owner : ℤ) = i then bytes else []
    | _ => []

/-- What was handed to `FeedBack_Receive` of client `i`. -/
def handedTo (i : ℤ) (es : List Event) : List UInt8 :=
  es.flatMap fun
    | .handed target bytes => if (target : ℤ) = i then bytes else []
    | _ => []

/-- No packet that carries a token was refused. -/
def NoRefusal (out : List Event) : Prop :=
  ∀ p, .pushed p ∈ out → p.name ≠ .sendQueue → p.accepted = true

/-- The step gives up no token on its own. -/
def Lossless (s : EchoSystem) : Act → Prop
  | .accept errorCode taken => s.server.SocketOk errorCode s.acceptThread ∧ taken = true
  | .receive taken => taken = true
  | .disconnect _ _ => ∀ id, s.disconnectThread ≠ some (.finder id)
  | .process => ∀ c, s.inHand = some c → (∀ context, c.op.overlapped ≠ .send context) →
      c.result = true
  | _ => True

/-- A step of the server is a step of the custody of its clients. -/
structure Outcome (s : EchoSystem) (a : Act) (s' : EchoSystem) (out : List Event)
    (l : Label ℤ UInt8) : Prop where
  step : Step s.custody s'.custody l
  delivered : ∀ i, l.delivered i = deliveredTo i out
  handed : ∀ i, l.handed i = handedTo i out
  payload : NoRefusal out → ∀ lost, l = .shed lost → ∀ i p, .serving i p ∈ lost → p = []
  lossless : s.Lossless a → NoRefusal out → l.Lossless

variable {s s' : EchoSystem} {a : Act} {out : List Event} {P : Prop}

theorem Outcome.of_moves {t t' : Multiset ClientToken}
    (h : Moves (s.server.custody t) (s'.server.custody t') P) (ht : s.tokens = t)
    (ht' : s'.tokens = t') (hP : s.Lossless a → P) (hd : ∀ i, deliveredTo i out = [])
    (hh : ∀ i, handedTo i out = []) : ∃ l, Outcome s a s' out l := by
  subst ht ht'
  obtain ⟨l, hstep, hsil, hl⟩ := h
  refine ⟨l, hstep, fun i => ?_, fun i => ?_, fun _ => hsil.payload, fun ha _ => hl (hP ha)⟩
  · rw [hsil.delivered, hd]
  · rw [hsil.handed, hh]

theorem Outcome.of_still (h : Still s.server s'.server) (ht : s'.tokens = s.tokens)
    (hd : ∀ i, deliveredTo i out = []) (hh : ∀ i, handedTo i out = []) :
    ∃ l, Outcome s a s' out l :=
  Outcome.of_moves (P := True) (.stay ht h.custody.1 h.custody.2) rfl rfl (fun _ => trivial) hd hh

theorem Outcome.of_shed (lost : Multiset ClientToken) (h : Still s.server s'.server)
    (ht : s.tokens = lost + s'.tokens) (hd : ∀ i, deliveredTo i out = [])
    (hh : ∀ i, handedTo i out = [])
    (hl : NoRefusal out → ∀ i p, .serving i p ∈ lost → p = [])
    (hz : s.Lossless a → NoRefusal out → lost = 0) : ∃ l, Outcome s a s' out l := by
  refine ⟨.shed lost, .shed lost ht h.custody.1 h.custody.2, fun i => (hd i).symm,
    fun i => (hh i).symm, fun hr lost' he => ?_, fun ha hr lost' he => ?_⟩
  · rw [← Label.shed.inj he]
    exact hl hr
  · rw [← Label.shed.inj he]
    exact hz ha hr

theorem Outcome.keep (h : ∃ l, Outcome s a s' out l) (hv : s.custody.Valid)
    (hinv : s'.custody.Valid → s'.Inv) : s'.Inv ∧ ∃ l, Outcome s a s' out l := by
  obtain ⟨l, ho⟩ := h
  exact ⟨hinv (hv.step ho.step), l, ho⟩

theorem completed_total {server server' : EchoServer} (l : List Completed)
    (h : ∀ i, (server'.heap i).mReceiveBuf = (server.heap i).mReceiveBuf) :
    total (Completed.tokens server') l = total (Completed.tokens server) l := by
  apply total_congr
  intro c _
  unfold Completed.tokens
  rw [h]

theorem Inv.holdsAccept {pc : AcceptPc} (h : s.Inv) (ha : s.acceptThread = some pc) :
    s.server.HoldsAccept pc := by
  have hin (t : ClientToken) (ht : t ∈ s.server.acceptTokens (some pc)) : t ∈ s.tokens := by
    simp only [tokens, ha, Multiset.mem_add]
    simp [ht]
  cases pc with
  | finder id => exact holds_waiting h.valid (hin _ (Multiset.mem_singleton_self _))
  | feedBack target => exact holds_waiting_target h.valid (hin _ (Multiset.mem_singleton_self _))
  | ready target pc => exact holds_serving_target h.valid (hin _ (Multiset.mem_singleton_self _))
  | loadCount | storeCount | loadMax | isEmpty => trivial
  | prepare pc =>
    cases pc with
    | tryAccept currentId target pc rest =>
      cases pc with
      | guard => trivial
      | fill | post =>
        exact holds_waiting_target h.valid (hin _ (Multiset.mem_add.mpr (.inl (by simp))))
    | loadId | create | next | storeId | loadMax | storeMax => trivial

theorem Inv.holdsReceive {pc : ReceivePc} (h : s.Inv) (hr : s.receiveThread = some pc) :
    s.server.HoldsReceive pc := by
  have hin (t : ClientToken) (ht : t ∈ receiveTokens (some pc)) : t ∈ s.tokens := by
    simp only [tokens, hr, Multiset.mem_add]
    simp [ht]
  cases pc with
  | finder packet =>
    obtain ⟨i, hi, he, -⟩ := holds_serving h.valid (hin _ (Multiset.mem_singleton_self _))
    exact ⟨i, hi, he⟩
  | gather target packet => trivial
  | ready target pc => exact holds_serving_target h.valid (hin _ (Multiset.mem_singleton_self _))

theorem Inv.armed_posted {server' : EchoServer} {ops : List Posted} {taken : Bool} (h : s.Inv)
    (hkeep : ∀ op, s.server.Armed op → server'.Armed op) (hp : ∀ op ∈ ops, server'.Armed op) :
    ∀ op ∈ (s.outstanding ++ if taken then ops else []) ++
      (s.completed ++ s.inHand.toList).map Completed.op, server'.Armed op := by
  intro op hop
  simp only [List.append_assoc, List.mem_append] at hop
  rcases hop with hop | hop | hop
  · exact hkeep op (h.armed op (List.mem_append_left _ hop))
  · cases taken with
    | true => exact hp op hop
    | false => exact absurd hop List.not_mem_nil
  · exact hkeep op (h.armed op (List.mem_append_right _ hop))

theorem Inv.accept_step {pc : AcceptPc} {errorCode : ℤ} {taken : Bool} (h : s.Inv)
    (ha : s.acceptThread = some pc)
    (hs : machine.step s (.accept errorCode taken) = some (s', out)) :
    s'.Inv ∧ ∃ l, Outcome s (.accept errorCode taken) s' out l := by
  simp only [machine, ha, Option.some.injEq, Prod.mk.injEq] at hs
  obtain ⟨rfl, rfl⟩ := hs
  have hk : s.server.SlotsOk (some pc) := ha ▸ h.slots
  have hc : CounterOk s.server (some pc) s.disconnectThread := ha ▸ h.counter
  have hh := h.holdsAccept ha
  have hadv := acceptStep_advance errorCode h.sound hk
  have hposted := acceptStep_armed errorCode h.sound hh fun op hop => h.accepting op (ha ▸ hop)
  let rest := total Posted.tokens s.outstanding + total (Completed.tokens s.server) s.completed +
    total (Completed.tokens s.server) s.inHand.toList + s.port.tokens +
    receiveTokens s.receiveThread + disconnectTokens s.disconnectThread
  have hmoves := acceptStep_custody errorCode taken h.sound hk hh rest
  have hbefore : s.tokens = s.server.acceptTokens (some pc) + rest := by
    simp only [tokens, ha, rest]
    abel
  refine Outcome.keep ?_ h.valid fun hv =>
    ⟨h.shared, h.idle, hadv.sound, hv, ?_, ?_, ?_, h.sends, ?_, ?_, ?_, ?_⟩
  · apply Outcome.of_moves hmoves hbefore
    · simp only [tokens, total_append, completed_total _ hadv.receiveBuf, postedTokens, rest]
      abel
    · exact fun hl => ha ▸ hl
    · exact fun _ => rfl
    · exact fun _ => rfl
  · exact h.armed_posted hadv.armed fun op hop => hposted op (List.mem_append_left _ hop)
  · exact fun op hop => hposted op (List.mem_append_right _ hop)
  · exact fun op hop => hadv.armed op (h.receiving op hop)
  · exact acceptStep_slots errorCode h.sound.numbered hk hc
  · exact acceptStep_counter errorCode h.sound.numbered hk hh hc
  · exact sendOk_mono hadv.allocated h.sending
  · exact hadv.disconnectOk h.disconnecting

theorem Inv.receive_step {pc : ReceivePc} {taken : Bool} (h : s.Inv)
    (hr : s.receiveThread = some pc)
    (hs : machine.step s (.receive taken) = some (s', out)) :
    s'.Inv ∧ ∃ l, Outcome s (.receive taken) s' out l := by
  simp only [machine, hr, Option.some.injEq, Prod.mk.injEq] at hs
  obtain ⟨rfl, rfl⟩ := hs
  have hh := h.holdsReceive hr
  have hcalm := receiveStep_calm s.server 0 pc
  have hadv := hcalm.advance h.sound
  have htarget : ∀ target pc', pc = .ready target pc' → target < s.server.allocated := by
    rintro target pc' rfl
    exact hh.1
  have hposted := receiveStep_armed 0 h.sound htarget fun op hop => h.receiving op (hr ▸ hop)
  let rest := total Posted.tokens s.outstanding + total (Completed.tokens s.server) s.completed +
    total (Completed.tokens s.server) s.inHand.toList + s.port.tokens +
    s.server.acceptTokens s.acceptThread + disconnectTokens s.disconnectThread
  have hmoves := receiveStep_custody 0 taken h.sound hh rest
  have hbefore : s.tokens = receiveTokens (some pc) + rest := by
    simp only [tokens, hr, rest]
    abel
  have hafter : tokens { s with
      server := (s.server.receiveStep 0 pc).1
      receiveThread := (s.server.receiveStep 0 pc).2.1
      outstanding := s.outstanding ++
        if taken then (s.server.receiveStep 0 pc).2.2 else [] } =
      receiveTokens (s.server.receiveStep 0 pc).2.1 +
        (postedTokens taken (s.server.receiveStep 0 pc).2.2 + rest) := by
    simp only [tokens, total_append, completed_total _ hadv.receiveBuf, postedTokens, rest,
      hcalm.acceptTokens]
    abel
  refine Outcome.keep ?_ h.valid fun hv =>
    ⟨h.shared, h.idle, hadv.sound, hv, ?_, ?_, ?_, h.sends, hcalm.slotsOk h.slots, ?_, ?_, ?_⟩
  -- only the gathering hands bytes over; the other steps are silent moves
  · rcases hmoves with ⟨target, packet, rfl, hstep⟩ | ⟨hne, hmoves⟩
    · refine ⟨.unload target packet.bytes, ?_, fun i => rfl, fun i => ?_, ?_, ?_⟩
      · rw [← hbefore, ← hafter] at hstep
        exact hstep
      · simp [Label.handed, handing, handedTo]
      · exact fun _ lost he => absurd he (by simp)
      · exact fun _ _ lost he => absurd he (by simp)
    · have hnone : handing pc = [] := by
        cases pc with
        | gather target packet => exact absurd rfl (hne target packet)
        | finder | ready => rfl
      apply Outcome.of_moves hmoves hbefore hafter
      · exact id
      · simp [hnone, deliveredTo]
      · simp [hnone, handedTo]
  · exact h.armed_posted hadv.armed fun op hop => hposted op (List.mem_append_left _ hop)
  · exact fun op hop => hadv.armed op (h.accepting op hop)
  · exact fun op hop => hposted op (List.mem_append_right _ hop)
  · apply hcalm.counterOk h.counter
    cases pc <;> rfl
  · exact sendOk_mono hadv.allocated h.sending
  · exact hadv.disconnectOk h.disconnecting

theorem Inv.disconnect_step {pc : DisconnectPc} {errorCode : ℤ} {taken : Bool} (h : s.Inv)
    (hd : s.disconnectThread = some pc)
    (hs : machine.step s (.disconnect errorCode taken) = some (s', out)) :
    s'.Inv ∧ ∃ l, Outcome s (.disconnect errorCode taken) s' out l := by
  simp only [machine, hd, Option.some.injEq, Prod.mk.injEq] at hs
  obtain ⟨rfl, rfl⟩ := hs
  have hfound : ∀ id target, pc = .finder id → s.server.clientFinder id = some target →
      target < s.server.allocated ∧ s.server.connected target = true := by
    rintro id target rfl hf
    have hin : .serving id [] ∈ s.tokens := by simp [tokens, hd, disconnectTokens]
    obtain ⟨rfl, -⟩ := h.sound.numbered.finder.mp hf
    exact holds_serving_target h.valid hin
  obtain ⟨hcalm, hok, hposted⟩ := disconnectStep_spec errorCode (hd ▸ h.disconnecting) hfound
  have hadv := hcalm.advance h.sound
  have hcounter := disconnectStep_counter errorCode hcalm (hd ▸ h.counter)
  let rest := total Posted.tokens s.outstanding + total (Completed.tokens s.server) s.completed +
    total (Completed.tokens s.server) s.inHand.toList + s.port.tokens +
    s.server.acceptTokens s.acceptThread + receiveTokens s.receiveThread
  have hmoves := disconnectStep_custody errorCode taken hcalm hposted rest
  have hbefore : s.tokens = disconnectTokens (some pc) + rest := by
    simp only [tokens, hd, rest]
    abel
  refine Outcome.keep ?_ h.valid fun hv =>
    ⟨h.shared, h.idle, hadv.sound, hv, ?_, ?_, ?_, h.sends, hcalm.slotsOk h.slots, hcounter, ?_, hok⟩
  · apply Outcome.of_moves hmoves hbefore
    · simp only [tokens, total_append, completed_total _ hadv.receiveBuf, postedTokens, rest,
        hcalm.acceptTokens]
      abel
    · intro hl id he
      exact hl id (by rw [hd, he])
    · exact fun _ => rfl
    · exact fun _ => rfl
  · exact h.armed_posted hadv.armed fun op hop => absurd hop (by simp [hposted])
  · exact fun op hop => hadv.armed op (h.accepting op hop)
  · exact fun op hop => hadv.armed op (h.receiving op hop)
  · exact sendOk_mono hadv.allocated h.sending

theorem Inv.sending_step {server' : EchoServer} {thread' : Option SendPc} {ops : List Posted}
    {taken : Bool} (h : s.Inv) (hcalm : Calm s.server server')
    (hcount : server'.currentClientCount = s.server.currentClientCount)
    (hposted : ∀ op ∈ ops, server'.Armed op ∧ ∃ context, op.overlapped = .send context)
    (hok : server'.SendOk thread') :
    Inv { s with
        server := server'
        sendThread := thread'
        outstanding := s.outstanding ++ if taken then ops else [] } ∧
      ∃ l, Outcome s a { s with
        server := server'
        sendThread := thread'
        outstanding := s.outstanding ++ if taken then ops else [] } [] l := by
  have hadv := hcalm.advance h.sound
  have hzero : total Posted.tokens (if taken then ops else []) = 0 := by
    cases taken with
    | false => rfl
    | true =>
      rw [if_pos rfl, total_congr (g := fun _ => 0)]
      · simp [total]
      · intro op hop
        obtain ⟨-, context, hc⟩ := hposted op hop
        simp [Posted.tokens, hc]
  refine Outcome.keep ?_ h.valid fun hv =>
    ⟨h.shared, h.idle, hadv.sound, hv, ?_, ?_, ?_, h.sends, hcalm.slotsOk h.slots,
      hcalm.counterOk h.counter hcount, hok, hadv.disconnectOk h.disconnecting⟩
  · apply Outcome.of_still hcalm.toStill
    · simp only [tokens, total_append, completed_total _ hadv.receiveBuf, hcalm.acceptTokens, hzero,
        add_zero]
    · exact fun _ => rfl
    · exact fun _ => rfl
  · exact h.armed_posted hadv.armed fun op hop => (hposted op hop).1
  · exact fun op hop => hadv.armed op (h.accepting op hop)
  · exact fun op hop => hadv.armed op (h.receiving op hop)

theorem Inv.worker_step {acceptThread : Option AcceptPc} {sendThread : Option SendPc}
    {receiveThread : Option ReceivePc} {disconnectThread : Option DisconnectPc} (h : s.Inv)
    (name : QueueName)
    (ht : IOCompletionPort.calledTokens name (s.port.workerStep name).2 +
      (s.server.acceptTokens s.acceptThread + receiveTokens s.receiveThread +
        disconnectTokens s.disconnectThread) =
      s.server.acceptTokens acceptThread + receiveTokens receiveThread +
        disconnectTokens disconnectThread)
    (ha : ∀ op ∈ acceptPosting acceptThread, s.server.Armed op)
    (hr : ∀ op ∈ receivePosting receiveThread, s.server.Armed op)
    (hslots : s.server.SlotsOk acceptThread)
    (hcounter : CounterOk s.server acceptThread disconnectThread)
    (hsend : s.server.SendOk sendThread) (hdis : s.server.DisconnectOk disconnectThread) :
    Inv { s with
        port := (s.port.workerStep name).1
        acceptThread := acceptThread
        sendThread := sendThread
        receiveThread := receiveThread
        disconnectThread := disconnectThread } ∧
      ∃ l, Outcome s a { s with
        port := (s.port.workerStep name).1
        acceptThread := acceptThread
        sendThread := sendThread
        receiveThread := receiveThread
        disconnectThread := disconnectThread } [] l := by
  obtain ⟨hshared, hprocess, -, -, heffect⟩ := IOCompletionPort.workerStep_spec h.shared name
  have hport := heffect.tokens
  refine Outcome.keep ?_ h.valid fun hv => ⟨hshared, fun hin => hprocess.trans (h.idle hin),
    h.sound, hv, h.armed, ha, hr, h.sends, hslots, hcounter, hsend, hdis⟩
  apply Outcome.of_still
  · exact (Calm.refl s.server).toStill
  · calc
      _ = total Posted.tokens s.outstanding + total (Completed.tokens s.server) s.completed +
          total (Completed.tokens s.server) s.inHand.toList + (s.port.workerStep name).1.tokens +
          (s.server.acceptTokens acceptThread + receiveTokens receiveThread +
            disconnectTokens disconnectThread) := by
        simp only [tokens]
        abel
      _ = s.tokens := by
        rw [← ht]
        simp only [tokens, hport]
        abel
  · exact fun _ => rfl
  · exact fun _ => rfl

theorem Inv.acceptWorker_step (h : s.Inv) (ha : s.acceptThread = none) {errorCode : ℤ} {taken : Bool}
    (hs : machine.step s (.accept errorCode taken) = some (s', out)) :
    s'.Inv ∧ ∃ l, Outcome s (.accept errorCode taken) s' out l := by
  simp only [machine, ha, Option.some.injEq, Prod.mk.injEq] at hs
  obtain ⟨rfl, rfl⟩ := hs
  have hslots := h.slots
  have hcounter := h.counter
  rw [ha] at hslots hcounter
  apply h.worker_step .acceptQueue
  · rw [ha]
    cases hc : called (s.port.workerStep .acceptQueue).2 <;>
      simp [IOCompletionPort.calledTokens, hc, acceptTokens, Packet.tokens]
  · cases called (s.port.workerStep .acceptQueue).2 <;> simp [acceptPosting]
  · exact h.receiving
  · cases called (s.port.workerStep .acceptQueue).2 <;> exact hslots
  · cases called (s.port.workerStep .acceptQueue).2 with
    | none => exact hcounter
    | some packet => exact ⟨hcounter.count, by simp, hcounter.disconnect⟩
  · exact h.sending
  · exact h.disconnecting

theorem Inv.sendWorker_step (h : s.Inv) (hn : s.sendThread = none) {taken : Bool}
    (hs : machine.step s (.send taken) = some (s', out)) :
    s'.Inv ∧ ∃ l, Outcome s (.send taken) s' out l := by
  simp only [machine, hn, Option.some.injEq, Prod.mk.injEq] at hs
  obtain ⟨rfl, rfl⟩ := hs
  refine h.worker_step .sendQueue ?_ h.accepting h.receiving h.slots h.counter ?_ h.disconnecting
  · cases hc : called (s.port.workerStep .sendQueue).2 <;>
      simp [IOCompletionPort.calledTokens, hc, Packet.tokens]
  · cases called (s.port.workerStep .sendQueue).2 <;> trivial

theorem Inv.receiveWorker_step (h : s.Inv) (hn : s.receiveThread = none) {taken : Bool}
    (hs : machine.step s (.receive taken) = some (s', out)) :
    s'.Inv ∧ ∃ l, Outcome s (.receive taken) s' out l := by
  simp only [machine, hn, Option.some.injEq, Prod.mk.injEq] at hs
  obtain ⟨rfl, rfl⟩ := hs
  refine h.worker_step .receiveQueue ?_ h.accepting ?_ h.slots h.counter h.sending h.disconnecting
  · rw [hn]
    cases hc : called (s.port.workerStep .receiveQueue).2 with
    | none => simp [IOCompletionPort.calledTokens, hc]
    | some packet =>
      simp only [IOCompletionPort.calledTokens, hc, Option.elim_some, Option.map_some,
        Packet.tokens, receiveTokens]
      abel
  · cases called (s.port.workerStep .receiveQueue).2 <;> simp [receivePosting]

theorem Inv.disconnectWorker_step (h : s.Inv) (hn : s.disconnectThread = none) {errorCode : ℤ}
    {taken : Bool} (hs : machine.step s (.disconnect errorCode taken) = some (s', out)) :
    s'.Inv ∧ ∃ l, Outcome s (.disconnect errorCode taken) s' out l := by
  simp only [machine, hn, Option.some.injEq, Prod.mk.injEq] at hs
  obtain ⟨rfl, rfl⟩ := hs
  have hcounter := h.counter
  rw [hn] at hcounter
  refine h.worker_step .disconnectQueue ?_ h.accepting h.receiving h.slots ?_ h.sending ?_
  · rw [hn]
    cases hc : called (s.port.workerStep .disconnectQueue).2 with
    | none => simp [IOCompletionPort.calledTokens, hc]
    | some packet =>
      simp only [IOCompletionPort.calledTokens, hc, Option.elim_some, Option.map_some,
        Packet.tokens, disconnectTokens]
      abel
  · cases called (s.port.workerStep .disconnectQueue).2 with
    | none => exact hcounter
    | some packet => exact ⟨hcounter.count, hcounter.accept, by simp⟩
  · cases called (s.port.workerStep .disconnectQueue).2 <;> trivial

theorem mem_inFlight_of_taken {l : List Completed} {op : Posted}
    (hl : ∀ c ∈ l, c ∈ s.completed ++ s.inHand.toList)
    (hop : op ∈ s.outstanding ++ l.map Completed.op) : op ∈ s.inFlight := by
  rcases List.mem_append.mp hop with hop | hop
  · exact List.mem_append_left _ hop
  · obtain ⟨c, hc, rfl⟩ := List.mem_map.mp hop
    exact List.mem_append_right _ (List.mem_map_of_mem (hl c hc))

theorem Inv.armed_taken {l : List Completed} (h : s.Inv)
    (hsub : ∀ c ∈ l, c ∈ s.completed ++ s.inHand.toList) :
    ∀ op ∈ s.outstanding ++ l.map Completed.op, s.server.Armed op :=
  fun op hop => h.armed op (mem_inFlight_of_taken hsub hop)

theorem Inv.armed_inHand {c : Completed} (h : s.Inv) (hc : s.inHand = some c) :
    s.server.Armed c.op := by
  have hin : c ∈ s.completed ++ s.inHand.toList := by simp [hc]
  exact h.armed c.op (List.mem_append_right _ (List.mem_map_of_mem hin))

theorem Inv.dequeue_step {c : Completed} (h : s.Inv)
    (hs : machine.step s (.dequeue c) = some (s', out)) :
    s'.Inv ∧ ∃ l, Outcome s (.dequeue c) s' out l := by
  simp only [machine] at hs
  split_ifs at hs with hg
  obtain ⟨rfl, rfl⟩ := Prod.mk.inj (Option.some.inj hs)
  obtain ⟨hmem, hnone, hidle⟩ := hg
  have hsub (c' : Completed) (hc' : c' ∈ s.completed.erase c ++ [c]) :
      c' ∈ s.completed ++ s.inHand.toList := by
    rcases List.mem_append.mp hc' with hc' | hc'
    · exact List.mem_append_left _ (List.mem_of_mem_erase hc')
    · exact List.mem_append_left _ (List.mem_singleton.mp hc' ▸ hmem)
  refine Outcome.keep ?_ h.valid fun hv =>
    ⟨h.shared, fun _ => Option.isNone_iff_eq_none.mp hidle, h.sound, hv, ?_, h.accepting,
      h.receiving, fun c' hc' => h.sends c' (hsub c' hc'), h.slots, h.counter, h.sending,
      h.disconnecting⟩
  · apply Outcome.of_still
    · exact (Calm.refl s.server).toStill
    · simp only [tokens, hnone, total_erase hmem, Option.toList_none, Option.toList_some,
        total_cons, total_nil]
      abel
    · exact fun _ => rfl
    · exact fun _ => rfl
  · exact h.armed_taken hsub

/-- `Process` dispatches the completion it holds, or drops its token. -/
theorem Inv.begin_tokens {c : Completed} (h : s.Inv) (hc : s.inHand = some c) :
    ∃ lost, s.tokens = lost + tokens { s with
        port := s.port.begin (s.server.completion c)
        inHand := none } ∧
      (∀ i p, .serving i p ∈ lost → p = []) ∧
      (((∀ context, c.op.overlapped ≠ .send context) → c.result = true) → lost = 0) ∧
      (c.op.overlapped = .accept → c.result = false → lost = {.waiting (c.op.owner : ℤ)}) := by
  have hin : c ∈ s.completed ++ s.inHand.toList := by simp [hc]
  obtain ⟨lost, hlost, hrest⟩ := completed_tokens (h.armed_inHand hc) (h.sends c hin)
  refine ⟨lost, ?_, hrest⟩
  simp only [tokens, IOCompletionPort.begin_tokens h.shared (h.idle (by simp [hc])), hc,
    Option.toList_some, Option.toList_none, total_cons, total_nil, hlost]
  abel

theorem Inv.begin_step {c : Completed} (h : s.Inv) (hc : s.inHand = some c)
    (hs : machine.step s .process = some (s', out)) :
    s'.Inv ∧ ∃ l, Outcome s .process s' out l := by
  simp only [machine, hc, Option.some.injEq, Prod.mk.injEq] at hs
  obtain ⟨rfl, rfl⟩ := hs
  have hidle := h.idle (by simp [hc])
  obtain ⟨lost, htokens, hempty, hzero, -⟩ := h.begin_tokens hc
  have hsub (c' : Completed) (hc' : c' ∈ s.completed ++ []) : c' ∈ s.completed ++ s.inHand.toList :=
    List.mem_append_left _ (by simpa using hc')
  refine Outcome.keep ?_ h.valid fun hv =>
    ⟨(IOCompletionPort.begin_spec h.shared hidle _).1, fun hn => absurd rfl hn, h.sound, hv, ?_,
      h.accepting, h.receiving, fun c' hc' => h.sends c' (hsub c' hc'), h.slots, h.counter,
      h.sending, h.disconnecting⟩
  · apply Outcome.of_shed lost
    · exact (Calm.refl s.server).toStill
    · exact htokens
    · exact fun _ => rfl
    · exact fun _ => rfl
    · exact fun _ => hempty
    · exact fun hl _ => hzero (hl c hc)
  · exact h.armed_taken hsub

theorem Inv.push_step (h : s.Inv) (hn : s.inHand = none)
    (hs : machine.step s .process = some (s', out)) :
    s'.Inv ∧ ∃ l, Outcome s .process s' out l := by
  simp only [machine, hn, Option.map_eq_some_iff, Prod.mk.injEq] at hs
  obtain ⟨⟨port', e⟩, hstep, rfl, rfl⟩ := hs
  obtain ⟨hshared, -, -, heffect⟩ := IOCompletionPort.processStep_spec h.shared hstep
  have hport := heffect.tokens
  have hzero : NoRefusal (e.map Event.pushed).toList → IOCompletionPort.refusedTokens e = 0 := by
    intro hr
    cases e with
    | none => rfl
    | some p =>
      by_cases hsend : p.name = .sendQueue
      · simp [IOCompletionPort.refusedTokens, hsend, Packet.tokens]
      · simp [IOCompletionPort.refusedTokens, hr p (by simp) hsend]
  refine Outcome.keep ?_ h.valid fun hv =>
    ⟨hshared, fun hin => absurd rfl hin, h.sound, hv, ?_, h.accepting, h.receiving, ?_, h.slots,
      h.counter, h.sending, h.disconnecting⟩
  · apply Outcome.of_shed (IOCompletionPort.refusedTokens e)
    · exact (Calm.refl s.server).toStill
    · simp only [tokens, hport, hn]
      abel
    · cases e <;> exact fun _ => rfl
    · cases e <;> exact fun _ => rfl
    · intro hr i p hp
      rw [hzero hr] at hp
      exact absurd hp (Multiset.notMem_zero _)
    · exact fun _ => hzero
  · simpa [inFlight, hn] using h.armed
  · simpa [hn] using h.sends

theorem deliver_still (server : EchoServer) (owner : ℕ) (bytes : List UInt8) :
    Still server (server.deliver owner bytes) :=
  .assign ⟨rfl, rfl, .inl rfl, .inl rfl, fun h => ⟨h.inRange, h.queued⟩⟩

theorem deliver_tokens {server : EchoServer} {owner : ℕ} (bytes : List UInt8) {c : Completed}
    (h : c.op ≠ ⟨owner, .receive⟩) :
    c.tokens (server.deliver owner bytes) = c.tokens server := by
  obtain ⟨⟨owner', overlapped⟩, result, bytesTransferred⟩ := c
  cases overlapped with
  | accept | send => rfl
  | receive =>
    have hne : owner' ≠ owner := fun he => h (by rw [he])
    simp only [Completed.tokens, deliver, EchoServer.assign, Function.update_of_ne hne]

theorem Inv.completed_armed {op : Posted} {c : Completed} {server' : EchoServer} (h : s.Inv)
    (hmem : op ∈ s.outstanding) (hc : c.op = op) (hstill : Still s.server server') :
    ∀ op' ∈ s.outstanding.erase op ++ ((c :: s.completed) ++ s.inHand.toList).map Completed.op,
      server'.Armed op' := by
  intro op' hop
  apply hstill.armed h.sound.numbered
  apply h.armed
  rw [List.mem_append, List.cons_append, List.map_cons, List.mem_cons, hc] at hop
  rcases hop with hop | rfl | hop
  · exact List.mem_append_left _ (List.mem_of_mem_erase hop)
  · exact List.mem_append_left _ hmem
  · exact List.mem_append_right _ hop

theorem Inv.deliver_total {owner : ℕ} (h : s.Inv) (hop : ⟨owner, .receive⟩ ∈ s.outstanding)
    (bytes : List UInt8) {l : List Completed}
    (hl : ∀ c ∈ l, c ∈ s.completed ++ s.inHand.toList) :
    total (Completed.tokens (s.server.deliver owner bytes)) l =
      total (Completed.tokens s.server) l := by
  -- no other receive of a client in flight is completed, so no completion sees the new bytes
  apply total_congr
  intro c hc
  apply deliver_tokens
  intro he
  have hposted : .serving (owner : ℤ) [] ∈ total Posted.tokens s.outstanding :=
    mem_total.mpr ⟨_, hop, Multiset.mem_singleton_self _⟩
  have htoken : .serving (owner : ℤ) (if c.result then
      (s.server.heap c.op.owner).mReceiveBuf.take c.bytesTransferred else []) ∈
      total (Completed.tokens s.server) (s.completed ++ s.inHand.toList) := by
    rw [mem_total]
    refine ⟨c, hl c hc, ?_⟩
    simp [Completed.tokens, he]
  have htokens : s.tokens = total Posted.tokens s.outstanding +
      (total (Completed.tokens s.server) (s.completed ++ s.inHand.toList) +
        (s.port.tokens + s.server.acceptTokens s.acceptThread + receiveTokens s.receiveThread +
          disconnectTokens s.disconnectThread)) := by
    simp only [tokens, total_append]
    abel
  exact h.valid.apart htokens hposted (Multiset.mem_add.mpr (.inl htoken)) rfl

/-- The kernel completes a receive: its bytes are in `mReceiveBuf`. -/
theorem Inv.receive_complete {owner : ℕ} {result : Bool} {bytes : List UInt8} (h : s.Inv)
    (hs : machine.step s (.complete ⟨owner, .receive⟩ result bytes) = some (s', out)) :
    s'.Inv ∧ ∃ l, Outcome s (.complete ⟨owner, .receive⟩ result bytes) s' out l := by
  simp only [machine, if_true, true_and] at hs
  split at hs
  case isFalse => exact absurd hs (by simp)
  rename_i hg
  obtain ⟨rfl, rfl⟩ := Prod.mk.inj (Option.some.inj hs)
  have hstill := deliver_still s.server owner bytes
  let rest := total Posted.tokens (s.outstanding.erase ⟨owner, .receive⟩) +
    total (Completed.tokens s.server) s.completed +
    total (Completed.tokens s.server) s.inHand.toList + s.port.tokens +
    s.server.acceptTokens s.acceptThread + receiveTokens s.receiveThread +
    disconnectTokens s.disconnectThread
  have hbefore : s.tokens = {.serving (owner : ℤ) []} + rest := by
    simp only [tokens, total_erase hg.1, Posted.tokens, rest]
    abel
  have hcompleted := h.deliver_total hg.1 bytes fun c hc =>
    List.mem_append_left s.inHand.toList hc
  have hinHand := h.deliver_total hg.1 bytes fun c hc =>
    List.mem_append_right s.completed hc
  have hnew : Completed.tokens (s.server.deliver owner bytes)
      ⟨⟨owner, .receive⟩, result, bytes.length⟩ =
        {.serving (owner : ℤ) (if result then bytes else [])} := by
    simp [Completed.tokens, deliver]
  have hafter : tokens { s with
      server := s.server.deliver owner bytes
      outstanding := s.outstanding.erase ⟨owner, .receive⟩
      completed := ⟨⟨owner, .receive⟩, result, bytes.length⟩ :: s.completed } =
        {.serving (owner : ℤ) (if result then bytes else [])} + rest := by
    simp only [tokens, total_cons, hnew, hcompleted, hinHand, hstill.acceptTokens, rest]
    abel
  refine Outcome.keep ?_ h.valid fun hv => ⟨h.shared, h.idle, hstill.sound h.sound, hv,
    h.completed_armed hg.1 rfl hstill,
    fun op hop => hstill.armed h.sound.numbered (h.accepting op hop),
    fun op hop => hstill.armed h.sound.numbered (h.receiving op hop), ?_, hstill.slotsOk h.slots,
    hstill.counterOk h.counter rfl, sendOk_mono hstill.allocated.ge h.sending,
    hstill.disconnectOk h.disconnecting⟩
  -- a failed receive keeps its token empty, whatever the kernel wrote
  · cases result with
    | true =>
      refine ⟨.load owner bytes, .load _ _ rest hbefore hafter hstill.custody.1 hstill.custody.2,
        fun i => ?_, fun _ => rfl, fun _ lost he => absurd he (by simp),
        fun _ _ lost he => absurd he (by simp)⟩
      simp [Label.delivered, deliveredTo]
    | false =>
      apply Outcome.of_still hstill
      · rw [hafter, hbefore]
        rfl
      · exact fun _ => rfl
      · exact fun _ => rfl
  · intro c hc context hop
    rcases List.mem_cons.mp hc with rfl | hc
    · exact absurd hop (by simp)
    · exact h.sends c hc context hop

theorem Inv.other_complete {op : Posted} {result : Bool} {bytes : List UInt8} (h : s.Inv)
    (hop : op.overlapped ≠ .receive) (ha : SendsTransfer (.complete op result bytes))
    (hs : machine.step s (.complete op result bytes) = some (s', out)) :
    s'.Inv ∧ ∃ l, Outcome s (.complete op result bytes) s' out l := by
  simp only [machine, hop, if_false, false_and, IsEmpty.forall_iff, and_true] at hs
  split at hs
  case isFalse => exact absurd hs (by simp)
  rename_i hmem
  obtain ⟨rfl, rfl⟩ := Prod.mk.inj (Option.some.inj hs)
  have hstill := (Calm.refl s.server).toStill
  have hsame : Completed.tokens s.server ⟨op, result, bytes.length⟩ = op.tokens := by
    obtain ⟨owner, overlapped⟩ := op
    cases overlapped with
    | receive => exact absurd rfl hop
    | accept | send => rfl
  refine Outcome.keep ?_ h.valid fun hv => ⟨h.shared, h.idle, h.sound, hv,
    h.completed_armed hmem rfl hstill, h.accepting, h.receiving, ?_, h.slots, h.counter, h.sending,
    h.disconnecting⟩
  · apply Outcome.of_still
    · exact hstill
    · simp only [tokens, total_erase hmem, total_cons, hsame]
      abel
    · exact fun _ => rfl
    · exact fun _ => rfl
  · intro c hc context hsend
    rcases List.mem_cons.mp hc with rfl | hc
    · obtain ⟨owner, overlapped⟩ := op
      obtain rfl : overlapped = .send context := hsend
      exact mt List.length_eq_zero_iff.mp ha
    · exact h.sends c hc context hsend

/-- Every step of the server keeps the invariant and moves the tokens as custody allows. -/
theorem Inv.step (h : s.Inv) (ha : SendsTransfer a) (hs : machine.step s a = some (s', out)) :
    s'.Inv ∧ ∃ l, Outcome s a s' out l := by
  cases effect_of_step hs with
  | complete op result bytes =>
    by_cases hop : op.overlapped = .receive
    · obtain ⟨owner, overlapped⟩ := op
      obtain rfl : overlapped = .receive := hop
      exact h.receive_complete hs
    · exact h.other_complete hop ha hs
  | dequeue c => exact h.dequeue_step hs
  | begin c hin => exact h.begin_step hin hs
  | push port' e hin => exact h.push_step hin hs
  | acceptLoop errorCode taken hpc => exact h.acceptWorker_step hpc hs
  | accept errorCode taken pc hpc => exact h.accept_step hpc hs
  | receiveLoop taken hpc => exact h.receiveWorker_step hpc hs
  | receive taken pc hpc => exact h.receive_step hpc hs
  | disconnectLoop errorCode taken hpc => exact h.disconnectWorker_step hpc hs
  | disconnect errorCode taken pc hpc => exact h.disconnect_step hpc hs
  | sendLoop taken hpc => exact h.sendWorker_step hpc hs
  | send taken pc hpc =>
    obtain ⟨hok, hposted⟩ := sendStep_spec 0 h.sound (hpc ▸ h.sending)
    apply h.sending_step (sendStep_calm s.server 0 pc) _ hposted hok
    cases pc <;> rfl
  | request clientID dataSize messageBuff taken target hf =>
    have ht := (h.sound.numbered.finder.mp hf).2
    have hcalm := Calm.assign
      (sendRequest_kept (s.server.heap target) dataSize (.message messageBuff))
    apply h.sending_step hcalm rfl
    · intro op hop
      obtain ⟨o, rfl, -⟩ := sendRequest_posted target (h.sound.sends target ht) _ _ op hop
      exact ⟨request_armed h.sound ht _ _ _ hop, some o, rfl⟩
    · exact sendOk_mono hcalm.allocated.ge h.sending

variable (memory : ℕ → ClientDataSet) (buffers : QueueName → ℕ → Packet) (n : ℕ)
  (errorCode : ℤ → ℤ) (taken : ℕ → Bool)

theorem start_grown : Grown (EchoServer.new memory)
    (start memory buffers n errorCode taken).server n :=
  (prepareSocket_spec n errorCode (new_numbered memory) rfl).1

theorem start_allocated : (start memory buffers n errorCode taken).server.allocated = n :=
  (start_grown memory buffers n errorCode taken).allocated.trans (Nat.zero_add n)

theorem start_settled : (start memory buffers n errorCode taken).server.Settled :=
  (new_settled memory).prepareSocket n errorCode

theorem start_connected (i : ℕ) (hi : i < n) :
    (start memory buffers n errorCode taken).server.connected i = false := by
  have hc := (start_grown memory buffers n errorCode taken).connected i
  have ha : (EchoServer.new memory).allocated = 0 := rfl
  rw [hc, if_pos (by omega)]

theorem start_outstanding : (start memory buffers n errorCode taken).outstanding =
    ((List.range n).filter fun i : ℕ => errorCode i == 0 && taken i).map fun i => ⟨i, .accept⟩ := by
  obtain ⟨-, -, -, hpost⟩ := prepareSocket_spec n errorCode (new_numbered memory) rfl
  have ha : (EchoServer.new memory).allocated + n = n := Nat.zero_add n
  have hfree (i : ℕ) (hi : i ∈ List.range n) :
      ((EchoServer.new memory).prepareSocket n errorCode).1.connected i = false :=
    start_connected memory buffers n errorCode taken i (List.mem_range.mp hi)
  simp only [start]
  rw [hpost, ha, List.filter_map, List.filter_filter]
  congr 1
  apply List.filter_congr
  intro i hi
  rw [hfree i hi]
  simp [Bool.and_comm]

theorem total_accepts (l : List ℕ) : total Posted.tokens (l.map fun i => ⟨i, .accept⟩) =
    (l.map fun i : ℕ => (.waiting (i : ℤ) : ClientToken) : List ClientToken) := by
  induction l with
  | nil => rfl
  | cons i l ih =>
    rw [List.map_cons, total_cons, ih]
    rfl

theorem start_tokens : (start memory buffers n errorCode taken).tokens =
    (((List.range n).filter fun i : ℕ => errorCode i == 0 && taken i).map
      fun i : ℕ => (.waiting (i : ℤ) : ClientToken) : List ClientToken) := by
  rw [← total_accepts, ← start_outstanding memory buffers n errorCode taken]
  simp [tokens, start, IOCompletionPort.tokens, acceptTokens, receiveTokens, disconnectTokens]

theorem start_valid : (start memory buffers n errorCode taken).custody.Valid := by
  have ha : (start memory buffers n errorCode taken).server.allocated = n :=
    ((start_grown memory buffers n errorCode taken).allocated).trans (Nat.zero_add n)
  have hin (t : ClientToken) (ht : t ∈ (start memory buffers n errorCode taken).tokens) :
      ∃ i < n, t = .waiting (i : ℤ) := by
    rw [start_tokens, Multiset.mem_coe, List.mem_map] at ht
    obtain ⟨i, hi, rfl⟩ := ht
    exact ⟨i, List.mem_range.mp (List.mem_of_mem_filter hi), rfl⟩
  refine ⟨?_, fun id hid => ?_, fun id p hid => ?_, ?_⟩
  · show (Multiset.map _ (tokens _)).Nodup
    rw [start_tokens, Multiset.map_coe, Multiset.coe_nodup, List.map_map]
    apply List.Nodup.map
    · exact Int.ofNat_injective
    · exact List.nodup_range.filter _
  · obtain ⟨i, hi, he⟩ := hin _ hid
    obtain rfl := Token.waiting.inj he
    refine ⟨⟨i, by rw [ha]; exact hi, rfl⟩, ?_⟩
    rintro ⟨j, -, hc, hj⟩
    obtain rfl := Int.ofNat_inj.mp hj
    rw [start_connected memory buffers n errorCode taken j hi] at hc
    exact absurd hc (by simp)
  · obtain ⟨i, -, he⟩ := hin _ hid
    exact absurd he (by simp)
  · rintro id ⟨i, hi, -, rfl⟩
    exact ⟨i, hi, rfl⟩

theorem start_inv : (start memory buffers n errorCode taken).Inv := by
  obtain ⟨hsound, harmed⟩ := start_armed memory n errorCode
  have hcount : (start memory buffers n errorCode taken).server.currentClientCount = 0 :=
    (start_grown memory buffers n errorCode taken).count
  refine ⟨IOCompletionPort.new_shared _ _, fun hn => absurd rfl hn, hsound,
    start_valid memory buffers n errorCode taken, fun op hop => ?_, ?_, ?_, ?_,
    start_settled memory buffers n errorCode taken, ⟨?_, ?_, ?_⟩, trivial, trivial⟩
  · apply harmed
    simp only [inFlight, start, List.append_nil, List.map_nil, Option.toList_none] at hop
    exact List.mem_of_mem_filter hop
  · simp [start, acceptPosting]
  · simp [start, receivePosting]
  · simp [start]
  · rw [hcount]
    exact Int.natCast_nonneg _
  · simp [start]
  · simp [start]

variable {memory buffers n errorCode taken} {as : List Act} {es : List Event}

/-- The invariant holds all along every run whose sends move bytes. -/
theorem inv_along (ha : ∀ a ∈ as, SendsTransfer a) :
    machine.Along (start memory buffers n errorCode taken) as fun _ s => s.Inv := by
  refine Machine.Steps.along (C := fun _ a => SendsTransfer a) ?_
    (start_inv memory buffers n errorCode taken) fun es s a s' out h hsend hs => (h.step hsend hs).1
  intro bs a es s hp _
  exact ha a (hp.subset (by simp))

end EchoSystem

end EchoIocp
