import EchoIocp.SendPipeline

namespace EchoIocp

open LockFreeCircleQueue ClientDataSet

namespace ClientDataSet

variable {c : ClientDataSet} {dataSize : ℕ} {messageBuff : BufferPtr}

/-- One new context for the request was appended. -/
def Appended (c c' : ClientDataSet) (dataSize : ℕ) (messageBuff : BufferPtr) : Prop :=
  c'.mSendDataQueue.contents =
    c.mSendDataQueue.contents ++ [some (c.newSendContext dataSize messageBuff)]

/-- `SendRequest` returns whether the request was queued, and does nothing if it was not. -/
structure Truthful (c : ClientDataSet) (dataSize : ℕ) (messageBuff : BufferPtr) : Prop where
  reported : (c.sendRequest dataSize messageBuff).2.2 = true ↔
    Appended c (c.sendRequest dataSize messageBuff).1 dataSize messageBuff
  refused : ¬ Appended c (c.sendRequest dataSize messageBuff).1 dataSize messageBuff →
    (c.sendRequest dataSize messageBuff).2.2 = false ∧
      (c.sendRequest dataSize messageBuff).1.mSendDataQueue = c.mSendDataQueue ∧
      submitted (c.sendRequest dataSize messageBuff).2.1 = []

theorem sendRequest_frame (c : ClientDataSet) (dataSize : ℕ) (messageBuff : BufferPtr) :
    (c.sendRequest dataSize messageBuff).1 = { c with
      mSendDataQueue := (c.sendRequest dataSize messageBuff).1.mSendDataQueue } := by
  unfold sendRequest
  dsimp only
  split_ifs <;> rfl

theorem gather_calls (c : ClientDataSet) (dataSize : ℕ) (messageBuff : List UInt8) :
    ∃ packets : List (Option DataPacket),
      (c.gather dataSize messageBuff).2 = packets.map .processed := by
  have key (fuel : ℕ) (c : ClientDataSet) :
      ∃ packets : List (Option DataPacket), (drain fuel c).2 = packets.map .processed := by
    induction fuel generalizing c with
    | zero => exact ⟨[], rfl⟩
    | succ fuel ih =>
      unfold drain
      dsimp only
      split_ifs
      · exact ⟨[], rfl⟩
      · obtain ⟨packets, hp⟩ := ih c.popReceived
        exact ⟨c.mReceiveDataQueue.front :: packets, congrArg _ hp⟩
  exact key _ _

theorem feedBackSend_frame : c.feedBackSend.1 = { c with
    mSendDataQueue := c.feedBackSend.1.mSendDataQueue } := by
  unfold feedBackSend
  dsimp only
  split_ifs <;> rfl

theorem sendRequest_of_disconnected (hc : c.mIsConnet = false) :
    c.sendRequest dataSize messageBuff = (c, [], false) := by
  unfold sendRequest
  simp [hc]

theorem sendRequest_result (hc : c.mIsConnet = true) :
    (c.sendRequest dataSize messageBuff).2.2 = true := by
  simp only [sendRequest, hc]
  split_ifs <;> simp_all

/-- A full queue refuses the push, and nothing looks at what `push` returned. -/
theorem sendRequest_of_full (hr : c.mSendDataQueue.InRange) (hc : c.mIsConnet = true)
    (hf : c.mSendDataQueue.contents.length + 1 = maxQueueSize) :
    c.sendRequest dataSize messageBuff = (c, [], true) := by
  have hpush : c.pushSend (c.newSendContext dataSize messageBuff) = c := by
    unfold pushSend
    rw [push_of_full hr hf]
  have hsize : c.mSendDataQueue.size ≠ 1 := by
    rw [size_eq]
    simp only [maxQueueSize] at hf
    omega
  unfold sendRequest
  simp [hc, hpush, hsize]

theorem not_appended_self : ¬ Appended c c dataSize messageBuff := by
  unfold Appended
  simp

theorem truthful_iff_room (hr : c.mSendDataQueue.InRange) :
    Truthful c dataSize messageBuff ↔
      ¬ (c.mIsConnet = true ∧ c.mSendDataQueue.contents.length + 1 = maxQueueSize) := by
  constructor
  · rintro ht ⟨hc, hf⟩
    have happ := ht.reported.mp (sendRequest_result hc)
    rw [sendRequest_of_full hr hc hf] at happ
    exact not_appended_self happ
  · intro h
    by_cases hc : c.mIsConnet = true
    · have hlt := length_lt hr
      have hne : c.mSendDataQueue.contents.length + 1 ≠ maxQueueSize := fun hf => h ⟨hc, hf⟩
      have happ := (sendRequest_spec hr hc (by omega) dataSize messageBuff).1
      exact ⟨⟨fun _ => happ, fun _ => sendRequest_result hc⟩, fun hn => absurd happ hn⟩
    · rw [Bool.not_eq_true] at hc
      constructor <;> rw [sendRequest_of_disconnected hc]
      · exact ⟨fun hf => absurd hf (by simp), fun happ => absurd happ not_appended_self⟩
      · exact fun _ => ⟨rfl, rfl, rfl⟩

end ClientDataSet

namespace Slot

/-- `SendRequest` tells the truth exactly when the client is not connected or `mSendDataQueue` has
room. -/
theorem truthful_iff (memory : ClientDataSet) (id : ℤ) (socket : ℕ) (as : List Act) (s : Slot)
    (es : List Call) (hr : machine.run (start memory id socket) as = some (s, es))
    (dataSize : ℕ) (messageBuff : BufferPtr) :
    Truthful s.client dataSize messageBuff ↔
      ¬ (s.client.mIsConnet = true ∧
        s.client.mSendDataQueue.contents.length + 1 = maxQueueSize) :=
  truthful_iff_room (rested_of_run hr).toSend

theorem truthful_iff_accepted :
    ∃ s es, machine.run (start default 0 0) [.feedBackAccept true, .sendRequest 1 [7]] =
        some (s, es) ∧
      (Truthful s.client 1 (.message [8]) ↔ ¬ (s.client.mIsConnet = true ∧
        s.client.mSendDataQueue.contents.length + 1 = maxQueueSize)) :=
  ⟨_, _, rfl, truthful_iff default 0 0 [.feedBackAccept true, .sendRequest 1 [7]] _ _ rfl 1
    (.message [8])⟩

theorem run_sendRequests {id : ℤ} {s : Slot} (h : Rested id s.client)
    (hc : s.client.mIsConnet = true) (dataSize : ℕ) (messageBuff : List UInt8) (k : ℕ)
    (hk : s.client.mSendDataQueue.contents.length + k < maxQueueSize) :
    ∃ s' es, machine.run s (List.replicate k (.sendRequest dataSize messageBuff)) =
        some (s', es) ∧ s'.client.mIsConnet = true ∧
      s'.client.mSendDataQueue.contents.length = s.client.mSendDataQueue.contents.length + k := by
  induction k generalizing s with
  | zero => exact ⟨s, [], rfl, hc, rfl⟩
  | succ k ih =>
    let a : Act := .sendRequest dataSize messageBuff
    have hs := step_eq (s := s) (a := a) (by simp [a])
    have hspec := (sendRequest_spec h.toSend hc (by omega) dataSize (.message messageBuff)).1
    have hlen := congrArg List.length hspec
    rw [List.length_append, List.length_singleton] at hlen
    have hc' : (s.client.sendRequest dataSize (.message messageBuff)).1.mIsConnet = true := by
      rw [sendRequest_frame]
      exact hc
    obtain ⟨s', es, hr, hconn, hcount⟩ := ih (s := ⟨(perform s.client a).1, _⟩) (h.perform a) hc'
      (by simp only [a, perform]; omega)
    refine ⟨s', _, (Machine.run_cons _).mpr ⟨_, _, _, hs, hr, rfl⟩, hconn, ?_⟩
    simp only [a, perform] at hcount
    omega

/-- The hundredth message is dropped and reported as accepted. -/
theorem request_dropped :
    ∃ s es, machine.run (start default 0 0)
        (.feedBackAccept true :: List.replicate 99 (.sendRequest 1 [7])) = some (s, es) ∧
      (s.client.sendRequest 1 (.message [8])).2.2 = true ∧
      (s.client.sendRequest 1 (.message [8])).1.mSendDataQueue.contents =
        s.client.mSendDataQueue.contents ∧
      ¬ Truthful s.client 1 (.message [8]) := by
  let a : Act := .feedBackAccept true
  have hs := step_eq (s := start default 0 0) (a := a) (by simp [a])
  have hrest := (fresh_rested default 0 0).perform a
  have hempty : (perform (start default 0 0).client a).1.mSendDataQueue.contents = [] :=
    new_contents _
  obtain ⟨s, es, hr, hc, hlen⟩ := run_sendRequests (s := ⟨_, _⟩) hrest rfl 1 [7] 99
    (by rw [hempty]; decide)
  have hrun := (Machine.run_cons _).mpr ⟨_, _, _, hs, hr, rfl⟩
  rw [hempty] at hlen
  have hin := (rested_of_run hrun).toSend
  have hfull : s.client.mSendDataQueue.contents.length + 1 = maxQueueSize := by
    rw [hlen]
    rfl
  refine ⟨s, _, hrun, sendRequest_result hc, ?_, ?_⟩
  · rw [sendRequest_of_full hin hc hfull]
  · rw [truthful_iff_room hin]
    exact fun hn => hn ⟨hc, hfull⟩

def requests (as : List Act) : List (ℕ × List UInt8) :=
  as.filterMap fun
    | .sendRequest dataSize messageBuff => some (dataSize, messageBuff)
    | _ => none

def completions (as : List Act) : ℕ := (as.filter fun a => a matches .feedBackSend).length

/-- The buffer descriptors `WSASend` was given, in order. -/
def descriptors (es : List Call) : List WSABUF :=
  es.filterMap fun
    | .wsaSend lpBuffers _ => some lpBuffers
    | _ => none

/-- A descriptor designates the `dataSize` bytes of a request. -/
def Designates (lpBuffers : WSABUF) (request : ℕ × List UInt8) : Prop :=
  lpBuffers.len = request.1 ∧
    (request.1 = 0 ∨ ∃ bytes, lpBuffers.buf = .message bytes ∧
      bytes.take request.1 = request.2.take request.1)

/-- The `k`-th `WSASend` is given the bytes of the `k`-th request. -/
def AsRequested (as : List Act) (es : List Call) : Prop :=
  ∀ (k : ℕ) (lpBuffers : WSABUF), (descriptors es)[k]? = some lpBuffers →
    ∃ request : ℕ × List UInt8, (requests as)[k]? = some request ∧ Designates lpBuffers request

/-- After the calls `as` of a connected client each completed send has made way for the next, and
every `WSASend` was given `wsabuf`. -/
structure Progress (id : ℤ) (wsabuf : WSABUF) (as : List Act) (es : List Call) (s : Slot) :
    Prop where
  rested : Rested id s.client
  connected : s.client.mIsConnet = true
  context : s.client.mSendContext.wsabuf = wsabuf
  requested : (requests as).length = completions as + s.client.mSendDataQueue.contents.length
  paced : s.outstanding = if s.client.mSendDataQueue.contents = [] then 0 else 1
  given : descriptors es = List.replicate (completions as + s.outstanding) wsabuf

@[simp] theorem descriptors_append (es es' : List Call) :
    descriptors (es ++ es') = descriptors es ++ descriptors es' := List.filterMap_append

@[simp] theorem requests_append (as bs : List Act) :
    requests (as ++ bs) = requests as ++ requests bs := List.filterMap_append

@[simp] theorem completions_append (as bs : List Act) :
    completions (as ++ bs) = completions as + completions bs := by simp [completions]

variable {c : ClientDataSet} {a : Act}

/-- Every `WSASend` is given `mSendContext.wsabuf`. -/
theorem perform_descriptors (hr : c.mReceiveDataQueue.InRange) (a : Act) :
    descriptors (perform c a).2 =
      List.replicate (submitted (perform c a).2).length c.mSendContext.wsabuf := by
  cases a with
  | tryAccept errorCode =>
    simp only [perform, tryAccept]
    split_ifs <;> rfl
  | feedBackAccept feedback => cases feedback <;> rfl
  | feedBackReceive dataSize messageBuff =>
    obtain ⟨packets, hg⟩ := gather_calls c dataSize messageBuff
    simp only [perform, feedBackReceive_eq hr, hg, receiveReady]
    split_ifs <;> simp [descriptors, submitted]
  | sendRequest dataSize messageBuff =>
    simp only [perform, sendRequest]
    split_ifs <;> rfl
  | feedBackSend =>
    simp only [perform, feedBackSend]
    split_ifs <;> rfl

theorem perform_aside {id : ℤ} (h : Rested id c) (ha : a ≠ .feedBackAccept false)
    (hreq : requests [a] = []) (hcomp : completions [a] = 0) :
    (perform c a).1.mSendDataQueue = c.mSendDataQueue ∧
      (perform c a).1.mSendContext = c.mSendContext ∧
      (c.mIsConnet = true → (perform c a).1.mIsConnet = true) ∧
      submitted (perform c a).2 = [] := by
  cases a with
  | tryAccept errorCode =>
    simp only [perform, tryAccept]
    split_ifs <;> exact ⟨rfl, rfl, fun hc => hc, rfl⟩
  | feedBackAccept feedback =>
    cases feedback with
    | false => exact absurd rfl ha
    | true => exact ⟨rfl, rfl, fun _ => rfl, rfl⟩
  | feedBackReceive dataSize messageBuff =>
    obtain ⟨packets, hg⟩ := gather_calls c dataSize messageBuff
    have hqueue := gather_toSend c dataSize messageBuff
    have hctx : (c.gather dataSize messageBuff).1.mSendContext = c.mSendContext := by
      rw [gather_frame]
    have hconn : (c.gather dataSize messageBuff).1.mIsConnet = c.mIsConnet := by
      rw [gather_frame]
    simp only [perform, feedBackReceive_eq h.received, hg, receiveReady]
    split_ifs
    · exact ⟨hqueue, hctx, hconn.trans, by simp [submitted]⟩
    · exact ⟨hqueue, hctx, hconn.trans, by simp [submitted]⟩
  | sendRequest dataSize messageBuff => exact absurd hreq (by simp [requests])
  | feedBackSend => exact absurd hcomp (by simp [completions])

/-- A completion takes its context off the queue and starts the next send, if there is one. -/
theorem feedBackSend_spec {d : Option CustomOverlapped} {rest : List (Option CustomOverlapped)}
    (hr : c.mSendDataQueue.InRange) (hq : c.mSendDataQueue.contents = d :: rest) :
    c.feedBackSend.1.mSendDataQueue.contents = rest ∧
      (submitted c.feedBackSend.2).length = if rest = [] then 0 else 1 := by
  obtain ⟨-, hr', hrest⟩ := pop_of_cons hr hq
  have hcont : c.popSend.mSendDataQueue.contents = rest := hrest
  have he : c.popSend.mSendDataQueue.empty = true ↔ rest = [] := hrest ▸ empty_iff hr'
  simp only [feedBackSend, Bool.not_eq_true', ← Bool.not_eq_true, he]
  split_ifs
  · exact ⟨hcont, rfl⟩
  · exact ⟨hcont, rfl⟩

variable {id : ℤ} {wsabuf : WSABUF} {as : List Act} {es out : List Call} {s s' : Slot}

theorem step_outstanding (hs : machine.step s a = some (s', out)) :
    s'.outstanding + completions [a] = s.outstanding + (submitted out).length := by
  cases a with
  | feedBackSend =>
    obtain ⟨c, k⟩ := s
    cases k with
    | zero => simp [machine] at hs
    | succ k =>
      simp only [machine, Option.some.injEq, Prod.mk.injEq] at hs
      obtain ⟨rfl, rfl⟩ := hs
      simp only [completions, List.filter_cons, List.filter_nil, if_true, List.length_singleton]
      omega
  | tryAccept | feedBackAccept | feedBackReceive | sendRequest =>
    simp only [machine, Option.some.injEq, Prod.mk.injEq] at hs
    obtain ⟨rfl, rfl⟩ := hs
    rfl

theorem Progress.of_queue (h : Progress id wsabuf as es s) (hs : machine.step s a = some (s', out))
    (hconn : s'.client.mIsConnet = true) (hctx : s'.client.mSendContext = s.client.mSendContext)
    (hreq : (requests [a]).length + s.client.mSendDataQueue.contents.length =
      completions [a] + s'.client.mSendDataQueue.contents.length)
    (hpaced : s.outstanding + (submitted out).length =
      completions [a] + if s'.client.mSendDataQueue.contents = [] then 0 else 1) :
    Progress id wsabuf (as ++ [a]) (es ++ out) s' := by
  -- what is left to show of a step is what becomes of the queue
  have hout := step_outstanding hs
  obtain ⟨hc, rfl⟩ := step_client hs
  refine ⟨?_, hconn, ?_, ?_, ?_, ?_⟩
  · rw [hc]
    exact h.rested.perform a
  · rw [hctx, h.context]
  · have := h.requested
    rw [requests_append, completions_append, List.length_append]
    omega
  · omega
  · rw [descriptors_append, h.given, perform_descriptors h.rested.received, h.context,
      completions_append, List.replicate_append_replicate]
    congr 1
    omega

theorem Progress.step (h : Progress id wsabuf as es s) (ha : a ≠ .feedBackAccept false)
    (hroom : s.client.mSendDataQueue.contents.length + 1 < maxQueueSize)
    (hs : machine.step s a = some (s', out)) : Progress id wsabuf (as ++ [a]) (es ++ out) s' := by
  obtain ⟨hc, rfl⟩ := step_client hs
  have hpaced := h.paced
  have haside (hreq : requests [a] = []) (hcomp : completions [a] = 0) :
      Progress id wsabuf (as ++ [a]) (es ++ (perform s.client a).2) s' := by
    obtain ⟨hqueue, hctx, hconn, hsub⟩ := perform_aside h.rested ha hreq hcomp
    rw [← hc] at hqueue hctx hconn
    apply h.of_queue hs (hconn h.connected) hctx
    · rw [hreq, hcomp, hqueue]
      rfl
    · rw [hsub, hcomp, hqueue, hpaced]
      simp
  cases a with
  | tryAccept errorCode => exact haside rfl rfl
  | feedBackAccept feedback => exact haside rfl rfl
  | feedBackReceive dataSize messageBuff => exact haside rfl rfl
  | sendRequest dataSize messageBuff =>
    obtain ⟨hcont, hsub⟩ :=
      sendRequest_spec h.rested.toSend h.connected hroom dataSize (.message messageBuff)
    have hframe := sendRequest_frame s.client dataSize (.message messageBuff)
    simp only [perform] at hc hs ⊢
    rw [← hc] at hcont hframe
    apply h.of_queue hs
    · rw [hframe]
      exact h.connected
    · rw [hframe]
    · rw [hcont, List.length_append]
      show 1 + _ = 0 + (_ + 1)
      omega
    · have hne := List.append_ne_nil_of_right_ne_nil s.client.mSendDataQueue.contents
        (List.cons_ne_nil (some (s.client.newSendContext dataSize (.message messageBuff))) [])
      rw [hcont, hsub, hpaced, if_neg hne]
      split_ifs <;> rfl
  | feedBackSend =>
    cases hq : s.client.mSendDataQueue.contents with
    | nil =>
      -- nothing is outstanding, so there is nothing to complete
      rw [if_pos hq] at hpaced
      simp [machine, hpaced] at hs
    | cons d rest =>
      obtain ⟨hcont, hsub⟩ := feedBackSend_spec h.rested.toSend hq
      have hframe := feedBackSend_frame (c := s.client)
      simp only [perform] at hc hs ⊢
      rw [← hc] at hcont hframe
      apply h.of_queue hs
      · rw [hframe]
        exact h.connected
      · rw [hframe]
      · rw [hq, hcont]
        show 0 + (_ + 1) = 1 + _
        omega
      · rw [hsub, hcont, hpaced, hq, if_neg (by simp)]
        rfl

/-- While the queue is never full, a connected client makes the progress of `Progress`. -/
theorem progress_of_run {memory : ClientDataSet} {socket : ℕ}
    (hconn : ∀ a ∈ as, a ≠ .feedBackAccept false)
    (hroom : machine.Along (start memory id socket) (.feedBackAccept true :: as) fun _ s =>
      s.client.mSendDataQueue.contents.length + 1 ≠ maxQueueSize)
    (hr : machine.run (start memory id socket) (.feedBackAccept true :: as) = some (s, es)) :
    Progress id memory.mSendContext.wsabuf as es s := by
  obtain ⟨s₁, e₁, es₁, hs, hrun, rfl⟩ := (Machine.run_cons _).mp hr
  obtain ⟨hs₁, rfl⟩ := step_client hs
  have hout : s₁.outstanding = 0 := step_outstanding hs
  have h0 : Progress id memory.mSendContext.wsabuf []
      (perform (start memory id socket).client (.feedBackAccept true)).2 s₁ := by
    have hempty : s₁.client.mSendDataQueue.contents = [] := by
      rw [hs₁]
      exact new_contents _
    refine ⟨?_, by rw [hs₁]; rfl, by rw [hs₁]; rfl, by rw [hempty]; rfl, ?_, ?_⟩
    · rw [hs₁]
      exact (fresh_rested memory id socket).perform (.feedBackAccept true)
    · rw [hout, if_pos hempty]
    · rw [hout]
      rfl
  refine Machine.run_induction _ (P := fun bs es s => bs <+: as →
    Progress id memory.mSendContext.wsabuf bs (_ ++ es) s) (fun _ => by simpa using h0) ?_ hrun
    List.prefix_rfl
  intro bs es₂ s₂ a s₃ out hrun₂ ih hs₃ hp
  have hbs : bs <+: as := (List.prefix_append bs [a]).trans hp
  have hne := hroom _ _ s₂ (List.cons_prefix_cons.mpr ⟨rfl, hbs⟩)
    ((Machine.run_cons _).mpr ⟨_, _, _, hs, hrun₂, rfl⟩)
  have hlt := length_lt (ih hbs).rested.toSend
  rw [← List.append_assoc]
  exact (ih hbs).step (hconn a (hp.subset (by simp))) (by omega) hs₃

theorem Progress.given_length (h : Progress id wsabuf as es s) :
    completions as + s.outstanding = min (requests as).length (completions as + 1) := by
  have hreq := h.requested
  have hpaced := h.paced
  split_ifs at hpaced with hq
  · rw [hq, List.length_nil] at hreq
    omega
  · have := List.length_pos_iff.mpr hq
    omega

/-- Each `WSASend` is given the bytes of its request exactly when `mSendContext.wsabuf`, which
nothing ever writes, happens to designate the bytes of every request sent. -/
theorem asRequested_iff (memory : ClientDataSet) (id : ℤ) (socket : ℕ) (as : List Act) (s : Slot)
    (es : List Call) (hconn : ∀ a ∈ as, a ≠ .feedBackAccept false)
    (hroom : machine.Along (start memory id socket) (.feedBackAccept true :: as) fun _ s =>
      s.client.mSendDataQueue.contents.length + 1 ≠ maxQueueSize)
    (hr : machine.run (start memory id socket) (.feedBackAccept true :: as) = some (s, es)) :
    AsRequested as es ↔ ∀ request ∈ (requests as).take (completions as + 1),
      Designates memory.mSendContext.wsabuf request := by
  have h := progress_of_run hconn hroom hr
  have hlen := h.given_length
  unfold AsRequested
  rw [h.given]
  constructor
  · intro hk request hmem
    obtain ⟨k, hlt, rfl⟩ := List.mem_iff_getElem.mp hmem
    rw [List.length_take] at hlt
    obtain ⟨request, hrequest, hd⟩ := hk k memory.mSendContext.wsabuf (by
      rw [List.getElem?_replicate, if_pos (by omega)])
    rw [List.getElem?_eq_getElem (by omega), Option.some.injEq] at hrequest
    rw [List.getElem_take, hrequest]
    exact hd
  · intro hall k lpBuffers hk
    rw [List.getElem?_replicate] at hk
    split_ifs at hk with hlt
    obtain rfl := Option.some.inj hk
    have hk : k < ((requests as).take (completions as + 1)).length := by
      rw [List.length_take]
      omega
    refine ⟨_, List.getElem?_eq_getElem (by omega), ?_⟩
    rw [← List.getElem_take (h := hk)]
    exact hall _ (List.getElem_mem hk)

/-- A client in memory whose `mSendContext` was left with the one byte that is then requested. -/
theorem asRequested_iff_lucky_memory :
    AsRequested [.sendRequest 1 [7]] [.wsaRecv ⟨256, .receiveBuf⟩
        ⟨⟨256, .receiveBuf⟩, .opRecv, 0⟩, .wsaSend ⟨1, .message [7]⟩
        (some ⟨⟨1, .message [7]⟩, .opSend, 0⟩)] := by
  let memory : ClientDataSet :=
    { (default : ClientDataSet) with mSendContext := ⟨⟨1, .message [7]⟩, .opDefault, 0⟩ }
  refine (asRequested_iff memory 0 0 [.sendRequest 1 [7]] _ _ (by simp) ?_ rfl).mpr ?_
  · exact Machine.along_of_inits (by decide +kernel)
  · rintro request hmem
    obtain rfl := List.mem_singleton.mp hmem
    exact ⟨rfl, .inr ⟨[7], rfl, rfl⟩⟩

/-- In cleared memory a request of one byte is sent as no bytes at all. -/
theorem nothing_sent :
    ∃ s es, machine.run (start default 0 0) [.feedBackAccept true, .sendRequest 1 [7]] =
        some (s, es) ∧ descriptors es = [⟨0, .null⟩] ∧ ¬ AsRequested [.sendRequest 1 [7]] es := by
  refine ⟨_, _, rfl, rfl, fun h => ?_⟩
  obtain ⟨request, hrequest, hd⟩ := h 0 ⟨0, .null⟩ rfl
  obtain rfl := Option.some.inj hrequest
  exact absurd hd.1 (by decide)

end Slot

end EchoIocp
