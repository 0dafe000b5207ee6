import EchoIocp.Alive

namespace EchoIocp

open LockFreeCircleQueue ClientDataSet EchoServer
open Custody (Step Label Moves)

namespace EchoServer

variable {s s' : EchoServer} {a : Option AcceptPc} {pc : AcceptPc}

def HasFree (s : EchoServer) : Prop := ∃ i < s.allocated, s.connected i = false

def Room (s : EchoServer) : Option AcceptPc → Prop
  | none | some (.finder _) | some (.feedBack _) | some (.prepare .loadMax)
  | some (.prepare (.storeMax _)) => s.HasFree
  | _ => True

/-- Without a disconnect no update of the counter is lost. -/
structure CounterExact (s : EchoServer) (a : Option AcceptPc) : Prop where
  count : s.currentClientCount + pending a = s.connections
  accept : ∀ v, a = some (.storeCount v) → v = s.currentClientCount

theorem Numbered.free_of_lt (h : s.Numbered) (hc : s.connections < s.allocated) : s.HasFree := by
  by_contra hno
  have hall : ((Finset.range s.allocated).filter fun i => s.connected i = true) =
      Finset.range s.allocated := by
    apply Finset.filter_true_of_mem
    intro i hi
    by_contra hf
    exact hno ⟨i, Finset.mem_range.mp hi, Bool.eq_false_of_not_eq_true hf⟩
  rw [h.connections_card, hall, Finset.card_range] at hc
  exact hc.ne rfl

theorem Growing.free {currentId : ℤ} (h : s.Growing currentId) : s.HasFree := by
  have hpos := h.pos
  have hnext := h.nextId
  exact ⟨s.allocated - 1, by omega, h.fresh _ (by omega)⟩

theorem Still.hasFree (h : Still s s') (hf : s.HasFree) : s'.HasFree := by
  obtain ⟨i, hi, hc⟩ := hf
  exact ⟨i, h.allocated ▸ hi, by rw [h.connected, hc]⟩

theorem Still.room (h : Still s s') (hr : s.Room a) : s'.Room a := by
  rcases a with _ | pc
  · exact h.hasFree hr
  cases pc with
  | finder | feedBack => exact h.hasFree hr
  | ready | loadCount | storeCount | loadMax | isEmpty => trivial
  | prepare pc =>
    cases pc with
    | loadMax | storeMax => exact h.hasFree hr
    | loadId | create | next | tryAccept | storeId => trivial

theorem Still.counterExact (h : Still s s') (hc : CounterExact s a)
    (hcount : s'.currentClientCount = s.currentClientCount) : CounterExact s' a := by
  refine ⟨?_, fun v hv => ?_⟩
  · rw [h.connections, hcount]
    exact hc.count
  · rw [hcount]
    exact hc.accept v hv

theorem acceptStep_room (errorCode : ℤ) (hn : s.Numbered) (hk : s.SlotsOk (some pc))
    (hc : CounterExact s (some pc)) (hr : s.Room (some pc)) :
    (s.acceptStep errorCode pc).1.Room (s.acceptStep errorCode pc).2.1 := by
  -- the accept thread rests only with a slot left over
  cases pc with
  | finder id =>
    simp only [acceptStep]
    cases s.clientFinder id <;> exact hr
  | feedBack | loadCount | storeCount | loadMax => trivial
  | ready target pc =>
    simp only [acceptStep]
    cases ((s.heap target).receiveReadyStep pc).2.1 <;> trivial
  | isEmpty currentMax =>
    obtain ⟨-, rfl⟩ := hk
    by_cases hgrow : s.allocated - s.currentClientCount ≤ 0
    · rw [acceptStep_empty errorCode hgrow]
      trivial
    · rw [acceptStep_free errorCode hgrow]
      have hcount : s.currentClientCount = s.connections := by simpa [pending] using hc.count
      exact hn.free_of_lt (by omega)
  | prepare pc =>
    simp only [acceptStep]
    cases pc with
    | loadId => trivial
    | create currentId limit =>
      simp only [prepareStep]
      split_ifs <;> trivial
    | next currentId rest =>
      cases rest with
      | nil => trivial
      | cons id rest =>
        simp only [prepareStep]
        split <;> trivial
    | tryAccept currentId target pc rest =>
      simp only [prepareStep]
      cases ((s.heap target).tryAcceptStep errorCode pc).2.1 <;> trivial
    | storeId currentId => exact hk.free
    | loadMax | storeMax => exact hr

theorem acceptStep_exact (errorCode : ℤ) (hn : s.Numbered) (hk : s.SlotsOk (some pc))
    (hh : s.HoldsAccept pc) (hc : CounterExact s (some pc)) :
    CounterExact (s.acceptStep errorCode pc).1 (s.acceptStep errorCode pc).2.1 := by
  cases pc with
  | finder id =>
    simp only [acceptStep]
    cases s.clientFinder id <;> exact ⟨hc.count, by simp⟩
  | feedBack target =>
    have hconn := feedBack_connections hn hh.1 hh.2
    have hcount := hc.count
    simp only [pending, Int.add_zero] at hcount
    refine ⟨?_, by simp [acceptStep]⟩
    simp only [acceptStep, pending, hconn, Int.natCast_add, ← hcount]
    rfl
  | ready target pc =>
    have hcalm := Calm.assign (receiveReadyStep_kept (s.heap target) pc)
    have hc' := hcalm.counterExact hc rfl
    simp only [acceptStep]
    cases ((s.heap target).receiveReadyStep pc).2.1 <;> exact ⟨hc'.count, by simp⟩
  | loadCount => exact ⟨hc.count, by simp [acceptStep]⟩
  | storeCount v =>
    obtain rfl := hc.accept v rfl
    refine ⟨?_, by simp [acceptStep]⟩
    exact (Int.add_zero _).trans hc.count
  | loadMax => exact ⟨hc.count, by simp [acceptStep]⟩
  | isEmpty currentMax =>
    by_cases hgrow : currentMax - s.currentClientCount ≤ 0
    · rw [acceptStep_empty errorCode hgrow]
      exact ⟨hc.count, by simp⟩
    · rw [acceptStep_free errorCode hgrow]
      exact ⟨hc.count, by simp⟩
  | prepare pc =>
    have hconn := prepareStep_connections errorCode hn hk
    have hcount := (prepareStep_count clientIncrease s errorCode pc).1
    have hpend := pending_prepare (s.prepareStep clientIncrease errorCode pc).2.1
    simp only [acceptStep]
    refine ⟨?_, fun v hv => ?_⟩
    · rw [hconn, hcount, hpend]
      exact hc.count
    · simp at hv

end EchoServer

namespace IOCompletionPort

variable {port port' : IOCompletionPort} {name other : QueueName}

theorem WorkEffect.elsewhere {e : Option (WorkerEvent Packet)} (h : WorkEffect port port' name e)
    (hn : name ≠ other) : port'.transit other = port.transit other := by
  cases h with
  | quiet hl hc ht => exact ht other
  | popped d hc ht => exact ht other
  | fronted d hc ht ho => exact ho other hn

theorem WorkEffect.called_none {e : Option (WorkerEvent Packet)} (h : WorkEffect port port' name e)
    (he : port.transit name = []) : EchoSystem.called e = none ∧ port'.transit name = [] := by
  cases h with
  | quiet hl hc ht => exact ⟨rfl, (ht name).trans he⟩
  | popped d hc ht => exact ⟨rfl, (ht name).trans he⟩
  | fronted d hc ht ho => exact absurd (he.symm.trans ht) (by simp)

theorem PushEffect.empty {out : Option Pushed} (h : PushEffect port port' out)
    (he : port.transit other = []) : port'.transit other = [] := by
  cases h with
  | going name pc hp ht => exact (ht other).trans he
  | accepted name packet hp ht => exact (ht other).trans he
  | refused name packet hp hfull hlost ht =>
    by_cases hn : name = other
    · subst hn
      exact absurd (he.symm.trans hlost) (by simp)
    · exact (ht other hn).trans he

end IOCompletionPort

namespace EchoSystem

/-- Receives succeed, receives and sends move bytes, and the kernel takes what is posted. -/
def Gentle : Act → Prop
  | .complete ⟨_, .accept⟩ _ _ => True
  | .complete ⟨_, .receive⟩ result bytes => result = true ∧ bytes ≠ []
  | .complete ⟨_, .send _⟩ _ bytes => bytes ≠ []
  | .accept _ taken => taken = true
  | .receive taken => taken = true
  | _ => True

structure Undisturbed (s : EchoSystem) : Prop where
  queue : s.port.transit .disconnectQueue = []
  thread : s.disconnectThread = none
  completions : ∀ c ∈ s.completed ++ s.inHand.toList, c.op.overlapped ≠ .accept →
    c.bytesTransferred ≠ 0 ∧ (c.op.overlapped = .receive → c.result = true)
  room : s.server.Room s.acceptThread
  counter : CounterExact s.server s.acceptThread

variable {s s' : EchoSystem} {a : Act} {out : List Event}

theorem Gentle.sends (h : Gentle a) : SendsTransfer a := by
  cases a with
  | complete op result bytes =>
    obtain ⟨owner, overlapped⟩ := op
    cases overlapped with
    | accept | receive => trivial
    | send context => exact h
  | dequeue | process | accept | send | receive | disconnect | request => trivial

theorem dispatchTo_disconnect {server : EchoServer} {c : Completed} (ha : server.Armed c.op)
    (hc : c.op.overlapped ≠ .accept → c.bytesTransferred ≠ 0) :
    dispatchTo .disconnectQueue (server.completion c) = [] := by
  -- only a receive or a send without bytes makes a disconnect packet
  obtain ⟨⟨owner, overlapped⟩, result, bytesTransferred⟩ := c
  obtain ⟨-, hcontext⟩ := ha
  cases overlapped with
  | accept =>
    have hctx : (server.heap owner).mAcceptContext = acceptContext owner := hcontext
    cases result <;> simp [dispatchTo, dispatch, completion, context, hctx, acceptContext]
  | receive =>
    have hctx : (server.heap owner).mReceiveContext = receiveContext owner := hcontext
    have hb : bytesTransferred ≠ 0 := hc (by simp)
    cases result <;> simp [dispatchTo, dispatch, completion, context, hctx, receiveContext, hb]
  | send sent =>
    obtain ⟨o, rfl, ho⟩ := hcontext
    have hb : bytesTransferred ≠ 0 := hc (by simp)
    cases result <;> simp [dispatchTo, dispatch, completion, context, ho, hb]

theorem Undisturbed.still {server' : EchoServer} (h : s.Undisturbed) (hs : Still s.server server')
    (hc : server'.currentClientCount = s.server.currentClientCount) :
    server'.Room s.acceptThread ∧ CounterExact server' s.acceptThread :=
  ⟨hs.room h.room, hs.counterExact h.counter hc⟩

theorem Undisturbed.step (h : s.Undisturbed) (hi : s.Inv) (hg : Gentle a)
    (hs : machine.step s a = some (s', out)) : s'.Undisturbed := by
  have hwork (name : QueueName) (hn : name ≠ .disconnectQueue) :
      (s.port.workerStep name).1.transit .disconnectQueue = [] :=
    ((IOCompletionPort.workerStep_spec hi.shared name).2.2.2.2.elsewhere hn).trans h.queue
  cases effect_of_step hs with
  | complete op result bytes =>
    have hnew (c : Completed) (hc : c ∈ (⟨op, result, bytes.length⟩ :: s.completed) ++ s.inHand.toList)
        (ha : c.op.overlapped ≠ .accept) :
        c.bytesTransferred ≠ 0 ∧ (c.op.overlapped = .receive → c.result = true) := by
      rcases List.mem_cons.mp hc with rfl | hc
      · obtain ⟨owner, overlapped⟩ := op
        cases overlapped with
        | accept => exact absurd rfl ha
        | receive => exact ⟨mt List.length_eq_zero_iff.mp hg.2, fun _ => hg.1⟩
        | send context => exact ⟨mt List.length_eq_zero_iff.mp hg, by simp⟩
      · exact h.completions c hc ha
    by_cases hop : op.overlapped = .receive
    · simp only [if_pos hop]
      obtain ⟨hroom, hcounter⟩ := h.still (deliver_still s.server op.owner bytes) rfl
      exact ⟨h.queue, h.thread, hnew, hroom, hcounter⟩
    · simp only [if_neg hop]
      exact ⟨h.queue, h.thread, hnew, h.room, h.counter⟩
  | dequeue c hc =>
    refine ⟨h.queue, h.thread, fun c' hc' => h.completions c' ?_, h.room, h.counter⟩
    rcases List.mem_append.mp hc' with hc' | hc'
    · exact List.mem_append_left _ (List.mem_of_mem_erase hc')
    · exact List.mem_append_left _ (List.mem_singleton.mp hc' ▸ hc)
  | begin c hin =>
    -- neither an accept nor a completion that moved bytes makes a disconnect packet
    have hmem : c ∈ s.completed ++ s.inHand.toList := by simp [hin]
    refine ⟨?_, h.thread, fun c' hc' => h.completions c' ?_, h.room, h.counter⟩
    · rw [(IOCompletionPort.begin_spec hi.shared (hi.idle (by simp [hin])) _).2, h.queue,
        dispatchTo_disconnect (hi.armed_inHand hin) fun ha => (h.completions c hmem ha).1]
      rfl
    · exact List.mem_append_left _ (by simpa using hc')
  | push port' e hin hstep =>
    have heffect := (IOCompletionPort.processStep_spec hi.shared hstep).2.2.2
    exact ⟨heffect.empty h.queue, h.thread, h.completions, h.room, h.counter⟩
  | acceptLoop errorCode taken hpc =>
    have hroom := h.room
    have hcounter := h.counter
    rw [hpc] at hroom hcounter
    refine ⟨hwork .acceptQueue (by simp), h.thread, h.completions, ?_, ?_⟩
    · cases called (s.port.workerStep .acceptQueue).2 <;> exact hroom
    · cases called (s.port.workerStep .acceptQueue).2 with
      | none => exact hcounter
      | some packet => exact ⟨hcounter.count, by simp⟩
  | accept errorCode taken pc hpc =>
    have hk := hpc ▸ hi.slots
    exact ⟨h.queue, h.thread, h.completions,
      acceptStep_room errorCode hi.sound.numbered hk (hpc ▸ h.counter) (hpc ▸ h.room),
      acceptStep_exact errorCode hi.sound.numbered hk (hi.holdsAccept hpc) (hpc ▸ h.counter)⟩
  | sendLoop taken => exact ⟨hwork .sendQueue (by simp), h.thread, h.completions, h.room, h.counter⟩
  | send taken pc =>
    obtain ⟨hroom, hcounter⟩ := h.still (sendStep_calm s.server 0 pc).toStill (by cases pc <;> rfl)
    exact ⟨h.queue, h.thread, h.completions, hroom, hcounter⟩
  | receiveLoop taken =>
    exact ⟨hwork .receiveQueue (by simp), h.thread, h.completions, h.room, h.counter⟩
  | receive taken pc =>
    obtain ⟨hroom, hcounter⟩ :=
      h.still (receiveStep_calm s.server 0 pc).toStill (by cases pc <;> rfl)
    exact ⟨h.queue, h.thread, h.completions, hroom, hcounter⟩
  | disconnectLoop errorCode taken =>
    obtain ⟨hcalled, hempty⟩ := (IOCompletionPort.workerStep_spec hi.shared
      .disconnectQueue).2.2.2.2.called_none h.queue
    exact ⟨hempty, by simp [hcalled], h.completions, h.room, h.counter⟩
  | disconnect errorCode taken pc hpc => exact absurd (h.thread.symm.trans hpc) (by simp)
  | request clientID dataSize messageBuff taken target =>
    obtain ⟨hroom, hcounter⟩ := h.still
      (Calm.assign
        (sendRequest_kept (s.server.heap target) dataSize (.message messageBuff))).toStill rfl
    exact ⟨h.queue, h.thread, h.completions, hroom, hcounter⟩

/-- The accept worker handles the packet of client `i`, or is about to arm its slot. -/
def inAccept (s : EchoSystem) (i : ℕ) : Prop :=
  ∃ t ∈ s.server.acceptTokens s.acceptThread, t.owner = (i : ℤ)

def inReceive (s : EchoSystem) (i : ℕ) : Prop :=
  ∃ t ∈ receiveTokens s.receiveThread, t.owner = (i : ℤ)

def Covered (s : EchoSystem) (i : ℕ) : Prop :=
  ⟨i, .accept⟩ ∈ s.inFlight ∨ (∃ p ∈ s.port.transit .acceptQueue, p.clientID = i) ∨ s.inAccept i ∨
    s.server.connected i = true ∧ (⟨i, .receive⟩ ∈ s.inFlight ∨
      (∃ p ∈ s.port.transit .receiveQueue, p.clientID = i) ∨ s.inReceive i)

/-- All queues are empty, no push is under way and no handler runs. -/
structure Idle (s : EchoSystem) : Prop where
  queues : ∀ name, s.port.transit name = []
  accept : s.acceptThread = none
  send : s.sendThread = none
  receive : s.receiveThread = none
  disconnect : s.disconnectThread = none

/-- Every slot is covered, and an idle server can be connected to. -/
def Covers (s : EchoSystem) : Prop :=
  (∀ i < s.server.allocated, s.Covered i) ∧
    (s.Idle → ∃ i < s.server.allocated, ⟨i, .accept⟩ ∈ s.inFlight)

/-- `Process` reads no failed accept, and `TryAccept` finds no error on a socket it is to arm. -/
def Keeps (s : EchoSystem) : Act → Prop
  | .process => ∀ c, s.inHand = some c → c.op.overlapped = .accept → c.result = true
  | .accept errorCode _ => s.server.SocketOk errorCode s.acceptThread
  | _ => True

theorem Undisturbed.lossless (h : s.Undisturbed) (hg : Gentle a) (hk : s.Keeps a) :
    s.Lossless a := by
  cases a with
  | accept errorCode taken => exact ⟨hk, hg⟩
  | receive taken => exact hg
  | disconnect errorCode taken => exact fun id he => absurd (h.thread.symm.trans he) (by simp)
  | process =>
    intro c hc hsend
    cases ho : c.op.overlapped with
    | accept => exact hk c hc ho
    | receive => exact (h.completions c (by simp [hc]) (by simp [ho])).2 ho
    | send context => exact absurd ho (hsend context)
  | complete | dequeue | send | request => trivial

theorem Inv.covered_of_serving {i : ℕ} {p : List UInt8} (h : s.Inv)
    (ht : .serving (i : ℤ) p ∈ s.tokens)
    (hp : ⟨i, .receive⟩ ∈ s.inFlight ∨ (∃ p ∈ s.port.transit .receiveQueue, p.clientID = i) ∨
      s.inReceive i) : s.Covered i :=
  .inr (.inr (.inr ⟨(holds_serving_target h.valid ht).2, hp⟩))

theorem Inv.covered_of_operation {t : ClientToken} {op : Posted} {i : ℕ} (h : s.Inv)
    (ht : t ∈ s.tokens) (ho : t.owner = (i : ℤ)) (hop : op ∈ s.inFlight)
    (hown : (op.overlapped = .accept ∧ t = .waiting (op.owner : ℤ)) ∨
      op.overlapped = .receive ∧ ∃ p, t = .serving (op.owner : ℤ) p) : s.Covered i := by
  obtain ⟨owner, overlapped⟩ := op
  rcases hown with ⟨rfl, rfl⟩ | ⟨rfl, p, rfl⟩
  · obtain rfl := Int.ofNat_inj.mp ho
    exact .inl hop
  · obtain rfl := Int.ofNat_inj.mp ho
    exact h.covered_of_serving ht (.inl hop)

theorem Posted.mem_tokens {t : ClientToken} {op : Posted} (ht : t ∈ op.tokens) :
    (op.overlapped = .accept ∧ t = .waiting (op.owner : ℤ)) ∨
      op.overlapped = .receive ∧ ∃ p, t = .serving (op.owner : ℤ) p := by
  obtain ⟨owner, overlapped⟩ := op
  cases overlapped with
  | accept => exact .inl ⟨rfl, Multiset.mem_singleton.mp ht⟩
  | receive => exact .inr ⟨rfl, [], Multiset.mem_singleton.mp ht⟩
  | send context => exact absurd ht (Multiset.notMem_zero t)

theorem Completed.mem_tokens {t : ClientToken} {c : Completed} {server : EchoServer}
    (ht : t ∈ c.tokens server) :
    (c.op.overlapped = .accept ∧ t = .waiting (c.op.owner : ℤ)) ∨
      c.op.overlapped = .receive ∧ ∃ p, t = .serving (c.op.owner : ℤ) p := by
  obtain ⟨⟨owner, overlapped⟩, result, bytesTransferred⟩ := c
  cases overlapped with
  | accept => exact .inl ⟨rfl, Multiset.mem_singleton.mp ht⟩
  | receive => exact .inr ⟨rfl, _, Multiset.mem_singleton.mp ht⟩
  | send context => exact absurd ht (Multiset.notMem_zero t)

theorem receiveTokens_serving {t : ClientToken} {pc : Option ReceivePc}
    (ht : t ∈ receiveTokens pc) : ∃ p, t = .serving t.owner p := by
  rcases pc with _ | pc
  · exact absurd ht (Multiset.notMem_zero t)
  · cases pc <;> obtain rfl := Multiset.mem_singleton.mp ht <;> exact ⟨_, rfl⟩

/-- Without a disconnect the slots covered are those of the clients with a token. -/
theorem Inv.covered_iff (h : s.Inv) (hu : s.Undisturbed) (i : ℕ) :
    s.Covered i ↔ ∃ t ∈ s.tokens, t.owner = (i : ℤ) := by
  constructor
  · have hkernel (op : Posted) (hop : op ∈ s.inFlight) (hi : (op.owner : ℤ) = i)
        (hk : ∀ context, op.overlapped ≠ .send context) : ∃ t ∈ s.tokens, t.owner = (i : ℤ) := by
      obtain ⟨t, ht, ho⟩ := mem_kernel hop hk
      refine ⟨t, ?_, ho.trans hi⟩
      simp only [tokens, add_assoc, Multiset.mem_add] at ht ⊢
      tauto
    rintro (hop | ⟨p, hp, hi⟩ | ⟨t, ht, ho⟩ | ⟨-, hop | ⟨p, hp, hi⟩ | ⟨t, ht, ho⟩⟩)
    · exact hkernel _ hop rfl (by simp)
    · exact ⟨.waiting p.clientID, mem_tokens.mpr (.inr (.inl (.inl
        ⟨p, hp, Multiset.mem_singleton_self _⟩))), hi⟩
    · exact ⟨t, mem_tokens.mpr (.inr (.inr (.inl ht))), ho⟩
    · exact hkernel _ hop rfl (by simp)
    · exact ⟨.serving p.clientID p.bytes, mem_tokens.mpr (.inr (.inl (.inr (.inl
        ⟨p, hp, Multiset.mem_singleton_self _⟩)))), hi⟩
    · exact ⟨t, mem_tokens.mpr (.inr (.inr (.inr (.inl ht)))), ho⟩
  · rintro ⟨t, ht, ho⟩
    rcases mem_tokens.mp ht with (⟨op, hop, hin⟩ | ⟨c, hc, hin⟩) |
      (⟨p, hp, hin⟩ | ⟨p, hp, hin⟩ | ⟨p, hp, -⟩) | hin | hin | hin
    · exact h.covered_of_operation ht ho (List.mem_append_left _ hop) (Posted.mem_tokens hin)
    · exact h.covered_of_operation ht ho (List.mem_append_right _ (List.mem_map_of_mem hc))
        (Completed.mem_tokens hin)
    · obtain rfl := Multiset.mem_singleton.mp hin
      exact .inr (.inl ⟨p, hp, ho⟩)
    · obtain rfl := Multiset.mem_singleton.mp hin
      apply h.covered_of_serving (p := p.bytes)
      · rwa [← ho]
      · exact .inr (.inl ⟨p, hp, ho⟩)
    · -- no client disconnects: neither the queue nor its thread holds a token
      exact absurd hp (by simp [hu.queue])
    · exact .inr (.inr (.inl ⟨t, hin, ho⟩))
    · obtain ⟨p, he⟩ := receiveTokens_serving hin
      apply h.covered_of_serving (p := p)
      · rwa [← ho, ← he]
      · exact .inr (.inr ⟨t, hin, ho⟩)
    · exact absurd hin (by simp [hu.thread, disconnectTokens])

theorem Inv.all_covered_iff (h : s.Inv) (hu : s.Undisturbed) :
    (∀ i < s.server.allocated, s.Covered i) ↔ s.custody.Served := by
  constructor
  · rintro hall id ⟨i, hi, rfl⟩
    exact (h.covered_iff hu i).mp (hall i hi)
  · intro hserved i hi
    exact (h.covered_iff hu i).mpr (hserved i ⟨i, hi, rfl⟩)

theorem Undisturbed.listening (hu : s.Undisturbed)
    (hall : ∀ i < s.server.allocated, s.Covered i) (hidle : s.Idle) :
    ∃ i < s.server.allocated, ⟨i, .accept⟩ ∈ s.inFlight := by
  -- with every slot covered, an idle server has an accept in flight
  have hroom := hu.room
  rw [hidle.accept] at hroom
  obtain ⟨i, hi, hc⟩ := hroom
  refine ⟨i, hi, ?_⟩
  rcases hall i hi with hop | ⟨p, hp, -⟩ | ⟨t, ht, -⟩ | ⟨hconn, -⟩
  · exact hop
  · exact absurd hp (by simp [hidle.queues])
  · exact absurd ht (by simp [hidle.accept, acceptTokens])
  · exact absurd (hc.symm.trans hconn) (by simp)

theorem Inv.covers_iff (h : s.Inv) (hu : s.Undisturbed) : s.Covers ↔ s.custody.Served := by
  rw [← h.all_covered_iff hu]
  exact ⟨And.left, fun hall => ⟨hall, hu.listening hall⟩⟩

theorem Undisturbed.served_step (h : s.Undisturbed) (hi : s.Inv) (hg : Gentle a)
    (hr : NoRefusal out) (hs : machine.step s a = some (s', out)) (hserved : s.custody.Served)
    (hk : s.Keeps a) : s'.custody.Served := by
  obtain ⟨l, ho⟩ := (hi.step hg.sends hs).2
  exact hserved.step ho.step (ho.lossless (h.lossless hg hk) hr)

theorem Inv.not_served (id : ℤ) (hi : s.Inv) (h : Still s.server s'.server)
    (hl : s.tokens = {.waiting id} + s'.tokens) : ¬ s'.custody.Served :=
  hi.valid.not_served (.shed _ hl h.custody.1 h.custody.2) (Multiset.mem_singleton_self _)

theorem Inv.process_lossy {c : Completed} (hi : s.Inv) (hc : s.inHand = some c)
    (ha : c.op.overlapped = .accept) (hf : c.result = false)
    (hs : machine.step s .process = some (s', out)) : ¬ s'.custody.Served := by
  -- `Process` drops the token of an accept that failed
  simp only [machine, hc, Option.some.injEq, Prod.mk.injEq] at hs
  obtain ⟨rfl, -⟩ := hs
  obtain ⟨lost, hl, -, -, hlost⟩ := hi.begin_tokens hc
  rw [hlost ha hf] at hl
  exact hi.not_served _ (Calm.refl s.server).toStill hl

theorem socketError {server : EchoServer} {errorCode : ℤ} {pc : Option AcceptPc}
    (hbad : ¬ server.SocketOk errorCode pc) : ∃ currentId target ids,
      pc = some (.prepare (.tryAccept currentId target .guard ids)) ∧
      server.connected target = false ∧ errorCode ≠ 0 := by
  unfold SocketOk at hbad
  split at hbad
  · rename_i currentId target ids
    rw [Classical.not_imp] at hbad
    exact ⟨currentId, target, ids, rfl, hbad⟩
  · exact absurd trivial hbad

theorem Inv.accept_lossy {errorCode : ℤ} {taken : Bool} (hi : s.Inv)
    (hbad : ¬ s.server.SocketOk errorCode s.acceptThread)
    (hs : machine.step s (.accept errorCode taken) = some (s', out)) : ¬ s'.custody.Served := by
  -- `TryAccept` drops the token of a slot whose socket has an error
  obtain ⟨currentId, target, ids, ha, hconn, he⟩ := socketError hbad
  have hstep : s.server.acceptStep errorCode (.prepare (.tryAccept currentId target .guard ids)) =
      (s.server, some (.prepare (.next currentId ids)), []) := by
    have hc : (s.server.heap target).mIsConnet = false := hconn
    simp [acceptStep, prepareStep, tryAcceptStep, hc, he, posted]
  simp only [machine, ha, hstep, Option.some.injEq, Prod.mk.injEq] at hs
  obtain ⟨rfl, -⟩ := hs
  refine hi.not_served target ?_ ?_
  · exact (Calm.refl s.server).toStill
  · have huntried : s.server.untried (target :: ids) =
        {.waiting (target : ℤ)} + s.server.untried ids := by
      simp [untried_cons, hconn]
    simp only [tokens, ha, acceptTokens, prepareTokens, huntried, ite_self, List.append_nil]
    abel

/-- A gentle step of a covered server keeps it covered exactly when it keeps its tokens. -/
theorem Undisturbed.served_step_iff (h : s.Undisturbed) (hi : s.Inv) (hg : Gentle a)
    (hr : NoRefusal out) (hs : machine.step s a = some (s', out)) (hserved : s.custody.Served) :
    s'.custody.Served ↔ s.Keeps a := by
  refine ⟨fun hserved' => ?_, h.served_step hi hg hr hs hserved⟩
  cases a with
  | process =>
    intro c hc ha
    by_contra hf
    exact hi.process_lossy hc ha (Bool.eq_false_of_not_eq_true hf) hs hserved'
  | accept errorCode taken =>
    by_contra hbad
    exact hi.accept_lossy hbad hs hserved'
  | complete | dequeue | send | receive | disconnect | request => trivial

variable (memory : ℕ → ClientDataSet) (buffers : QueueName → ℕ → Packet) (n : ℕ)
  (errorCode : ℤ → ℤ)

theorem start_served : (start memory buffers n errorCode fun _ => true).custody.Served ↔
    ∀ i < n, errorCode (i : ℕ) = 0 := by
  have hmem (t : ClientToken) : t ∈ (start memory buffers n errorCode fun _ => true).tokens ↔
      ∃ i < n, errorCode (i : ℕ) = 0 ∧ t = .waiting (i : ℤ) := by
    rw [start_tokens, Multiset.mem_coe]
    simp only [List.mem_map, List.mem_filter, List.mem_range, Bool.and_true, beq_iff_eq]
    constructor
    · rintro ⟨i, ⟨hi, he⟩, rfl⟩
      exact ⟨i, hi, he, rfl⟩
    · rintro ⟨i, hi, he, rfl⟩
      exact ⟨i, ⟨hi, he⟩, rfl⟩
  have ha := start_allocated memory buffers n errorCode fun _ => true
  constructor
  · intro hserved i hi
    obtain ⟨t, ht, ho⟩ := hserved (i : ℤ) ⟨i, ha.symm ▸ hi, rfl⟩
    obtain ⟨j, -, he, rfl⟩ := (hmem t).mp ht
    obtain rfl := Int.ofNat_inj.mp ho
    exact he
  · rintro hzero id ⟨i, hi, rfl⟩
    rw [ha] at hi
    exact ⟨.waiting (i : ℤ), (hmem _).mpr ⟨i, hi, hzero i hi, rfl⟩, rfl⟩

theorem start_undisturbed (hn : 1 ≤ n) :
    (start memory buffers n errorCode fun _ => true).Undisturbed := by
  have ha := start_allocated memory buffers n errorCode fun _ => true
  have hconn := start_connected memory buffers n errorCode fun _ => true
  have hcount : (start memory buffers n errorCode fun _ => true).server.currentClientCount = 0 :=
    (start_grown memory buffers n errorCode fun _ => true).count
  have hnumbered := (start_settled memory buffers n errorCode fun _ => true).numbered
  have hzero : (start memory buffers n errorCode fun _ => true).server.connections = 0 := by
    rw [hnumbered.connections_card, Finset.card_eq_zero, Finset.filter_eq_empty_iff]
    intro i hi
    rw [hconn i (by simpa [ha] using hi)]
    simp
  refine ⟨IOCompletionPort.new_transit _ _ _, rfl, by simp [start], ⟨0, ?_, hconn 0 hn⟩, ?_, ?_⟩
  · rw [ha]
    exact hn
  · rw [hcount, hzero]
    rfl
  · simp [start]

theorem NoRefusal.right {es es' : List Event} (h : NoRefusal (es ++ es')) : NoRefusal es' :=
  fun p hp => h p (List.mem_append_right _ hp)

theorem keeps_of_blocked (h : machine.step s a = none) : s.Keeps a := by
  cases a with
  | process =>
    intro c hc
    simp [machine, hc] at h
  | accept errorCode taken =>
    cases hpc : s.acceptThread <;> simp [machine, hpc] at h
  | complete | dequeue | send | receive | disconnect | request => trivial

/-- Without a disconnect and without a refused packet, every slot stays covered exactly when
`Process` reads no failed accept and `TryAccept` finds no error on a socket it is to arm. -/
theorem covers_along_iff (hn : 1 ≤ n) (as : List Act) (hg : ∀ a ∈ as, Gentle a)
    (hfull : machine.Along (start memory buffers n errorCode fun _ => true) as
      fun es _ => NoRefusal es) :
    (machine.Along (start memory buffers n errorCode fun _ => true) as fun _ s => s.Covers) ↔
      (∀ i < n, errorCode (i : ℕ) = 0) ∧
        machine.Steps (start memory buffers n errorCode fun _ => true) as Keeps := by
  have hinv := start_inv memory buffers n errorCode fun _ => true
  have hundisturbed := start_undisturbed memory buffers n errorCode hn
  have hserved := start_served memory buffers n errorCode
  have hiff (hzero : ∀ i < n, errorCode (i : ℕ) = 0) :
      (machine.Along (start memory buffers n errorCode fun _ => true) as fun _ s => s.Covers) ↔
        machine.Steps (start memory buffers n errorCode fun _ => true) as Keeps := by
    refine Machine.along_iff_steps (J := fun _ s => s.Inv ∧ s.Undisturbed) ?_ ?_
      fun _ _ => keeps_of_blocked
    · exact ⟨⟨hinv, hundisturbed⟩, (hinv.covers_iff hundisturbed).mpr (hserved.mpr hzero)⟩
    · intro bs es s a s' out hp hr ⟨hi, hu⟩ hcovers hs
      have hgentle := hg a (hp.subset (by simp))
      have hi' := (hi.step hgentle.sends hs).1
      have hu' := hu.step hi hgentle hs
      have hrefused := (hfull _ _ s' hp (machine.run_concat.mpr ⟨s, es, out, hr, hs, rfl⟩)).right
      refine ⟨⟨hi', hu'⟩, ?_⟩
      rw [hi'.covers_iff hu']
      exact hu.served_step_iff hi hgentle hrefused hs ((hi.covers_iff hu).mp hcovers)
  constructor
  · intro hcovers
    have hzero := hserved.mp
      ((hinv.covers_iff hundisturbed).mp (hcovers [] [] _ List.nil_prefix rfl))
    exact ⟨hzero, (hiff hzero).mp hcovers⟩
  · rintro ⟨hzero, hkeeps⟩
    exact (hiff hzero).mpr hkeeps

instance (out : List Event) : Decidable (NoRefusal out) :=
  decidable_of_iff (∀ e ∈ out, (match e with
    | .pushed p => p.name == .sendQueue || p.accepted
    | _ => true) = true) <| by
    refine ⟨fun h p hp hn => ?_, fun h e he => ?_⟩
    · simpa [hn] using h _ hp
    · cases e with
      | pushed p =>
        by_cases hn : p.name = .sendQueue
        · simp [hn]
        · simp [h p he hn]
      | delivered | handed => rfl

theorem covers_along_iff_oneAccept :
    machine.Along (start (fun _ => default) (fun _ _ => default) 1 (fun _ => 0) fun _ => true)
      oneAccept fun _ s => s.Covers := by
  refine (covers_along_iff _ _ _ _ (by decide) _ ?_ (Machine.along_of_inits (by decide +kernel))).mpr
    ⟨fun _ _ => rfl, fun bs a es s hp hr => ?_⟩
  · intro a ha
    simp only [oneAccept, List.mem_cons, List.mem_append, List.mem_replicate] at ha
    rcases ha with rfl | rfl | ⟨-, rfl⟩ | ⟨-, rfl⟩ <;> trivial
  · have hsucceeded : machine.Along (start (fun _ => default) (fun _ _ => default) 1 (fun _ => 0)
        fun _ => true) oneAccept fun _ s => s.inHand.all Completed.result = true :=
      Machine.along_of_inits (by decide +kernel)
    have hin := hsucceeded bs es s ((List.prefix_append bs [a]).trans hp) hr
    have ha := hp.subset (show a ∈ bs ++ [a] by simp)
    simp only [oneAccept, List.mem_cons, List.mem_append, List.mem_replicate] at ha
    rcases ha with rfl | rfl | ⟨-, rfl⟩ | ⟨-, rfl⟩
    · trivial
    · trivial
    · intro c hc _
      simpa [hc] using hin
    · show s.server.SocketOk 0 s.acceptThread
      unfold SocketOk
      split <;> simp

def failedAccept : List Act :=
  [.complete ⟨0, .accept⟩ false [], .dequeue ⟨⟨0, .accept⟩, false, 0⟩, .process]

/-- One failed accept, and nobody can connect any more: the server is idle with nothing in
flight. -/
theorem failedAccept_uncovered : (∀ a ∈ failedAccept, Gentle a) ∧
    machine.Along (start (fun _ => default) (fun _ _ => default) 1 (fun _ => 0) fun _ => true)
      failedAccept (fun es _ => NoRefusal es) ∧
    (∃ s, machine.run (start (fun _ => default) (fun _ _ => default) 1 (fun _ => 0) fun _ => true)
      failedAccept = some (s, []) ∧ s.Idle ∧ s.inFlight = []) ∧
    ¬ machine.Along (start (fun _ => default) (fun _ _ => default) 1 (fun _ => 0) fun _ => true)
      failedAccept fun _ s => s.Covers := by
  have hlost : ∃ s, machine.run (start (fun _ => default) (fun _ _ => default) 1 (fun _ => 0)
      fun _ => true) failedAccept = some (s, []) ∧ s.Idle ∧ s.inFlight = [] := by
    have hend : (machine.run (start (fun _ => default) (fun _ _ => default) 1 (fun _ => 0)
        fun _ => true) failedAccept).map (fun r => (r.2.length, r.1.inFlight,
          [r.1.acceptThread.isNone, r.1.sendThread.isNone, r.1.receiveThread.isNone,
            r.1.disconnectThread.isNone],
          [.acceptQueue, .sendQueue, .receiveQueue, .disconnectQueue].map r.1.port.transit)) =
        some (0, [], [true, true, true, true], [[], [], [], []]) := by
      decide +kernel
    obtain ⟨⟨s, es⟩, hr, he⟩ := Option.map_eq_some_iff.mp hend
    simp only [List.map_cons, List.map_nil, Prod.mk.injEq, List.cons.injEq, and_true,
      Option.isNone_iff_eq_none, List.length_eq_zero_iff] at he
    obtain ⟨rfl, hflight, ⟨ha, hs, hrec, hd⟩, hqa, hqs, hqr, hqd⟩ := he
    refine ⟨s, hr, ⟨fun name => ?_, ha, hs, hrec, hd⟩, hflight⟩
    cases name
    · exact hqa
    · exact hqs
    · exact hqr
    · exact hqd
  refine ⟨?_, Machine.along_of_inits (by decide +kernel), hlost, fun hcovers => ?_⟩
  · intro a ha
    simp only [failedAccept, List.mem_cons, List.not_mem_nil, or_false] at ha
    rcases ha with rfl | rfl | rfl <;> trivial
  · obtain ⟨s, hr, hidle, hnone⟩ := hlost
    obtain ⟨i, -, hin⟩ := (hcovers.last hr).2 hidle
    exact absurd hin (by simp [hnone])

end EchoSystem

end EchoIocp
