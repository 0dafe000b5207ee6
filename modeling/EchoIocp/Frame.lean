import EchoIocp.Handlers
import Mathlib.Data.Finset.Card

namespace EchoIocp

open LockFreeCircleQueue

/-- What `TryAccept` fills in for client `id`. -/
def acceptContext (id : ℤ) : CustomOverlapped :=
  { CustomOverlapped.zero with
    operationType := .opAccept
    id
    wsabuf := ⟨maxSockAcceptBuf, .acceptBuf⟩ }

/-- What `ReceiveReady` fills in for client `id`. -/
def receiveContext (id : ℤ) : CustomOverlapped :=
  { CustomOverlapped.zero with
    operationType := .opRecv
    wsabuf := ⟨maxSockRecvBuf, .receiveBuf⟩
    id }

namespace ClientDataSet

/-- Only contexts that `SendRequest` made are queued for sending. -/
structure SendsOk (c : ClientDataSet) : Prop where
  inRange : c.mSendDataQueue.InRange
  queued : ∀ x ∈ c.mSendDataQueue.contents, ∃ o, x = some o ∧ o.operationType = .opSend

/-- What stays of a client that is as connected as before. -/
structure Steady (c c' : ClientDataSet) : Prop where
  id : c'.mID = c.mID
  isConnet : c'.mIsConnet = c.mIsConnet
  accept : c'.mAcceptContext = c.mAcceptContext ∨ c'.mAcceptContext = acceptContext c.mID
  receive : c'.mReceiveContext = c.mReceiveContext ∨ c'.mReceiveContext = receiveContext c.mID
  sends : c.SendsOk → c'.SendsOk

/-- Only the kernel writes to `mReceiveBuf`. -/
structure Kept (c c' : ClientDataSet) : Prop extends Steady c c' where
  receiveBuf : c'.mReceiveBuf = c.mReceiveBuf

variable {c : ClientDataSet} {dataSize : ℕ} {messageBuff : List UInt8}

theorem Kept.refl (c : ClientDataSet) : Kept c c :=
  ⟨⟨rfl, rfl, .inl rfl, .inl rfl, fun h => h⟩, rfl⟩

theorem Steady.trans {c' c'' : ClientDataSet} (h : Steady c c') (h' : Steady c' c'') :
    Steady c c'' where
  id := h'.id.trans h.id
  isConnet := h'.isConnet.trans h.isConnet
  accept := by
    rcases h'.accept with he | he
    · rw [he]
      exact h.accept
    · exact .inr (he.trans (by rw [h.id]))
  receive := by
    rcases h'.receive with he | he
    · rw [he]
      exact h.receive
    · exact .inr (he.trans (by rw [h.id]))
  sends := fun hc => h'.sends (h.sends hc)

theorem tryAcceptStep_kept (c : ClientDataSet) (errorCode : ℤ) (pc : TryAcceptPc) :
    Kept c (c.tryAcceptStep errorCode pc).1 := by
  cases pc with
  | guard =>
    simp only [tryAcceptStep]
    split_ifs <;> exact Kept.refl c
  | fill => exact ⟨⟨rfl, rfl, .inr rfl, .inl rfl, fun h => ⟨h.inRange, h.queued⟩⟩, rfl⟩
  | post => exact Kept.refl c

theorem receiveReadyStep_kept (c : ClientDataSet) (pc : ReceiveReadyPc) :
    Kept c (c.receiveReadyStep pc).1 := by
  cases pc with
  | guard =>
    simp only [receiveReadyStep]
    split_ifs <;> exact Kept.refl c
  | fill => exact ⟨⟨rfl, rfl, .inl rfl, .inr rfl, fun h => ⟨h.inRange, h.queued⟩⟩, rfl⟩
  | post => exact Kept.refl c

theorem gather_kept (c : ClientDataSet) (dataSize : ℕ) (messageBuff : List UInt8) :
    Kept c (c.gather dataSize messageBuff).1 := by
  rw [gather_frame]
  exact ⟨⟨rfl, rfl, .inl rfl, .inl rfl, fun h => ⟨h.inRange, h.queued⟩⟩, rfl⟩

theorem gather_posted (target : ℕ) (c : ClientDataSet) (dataSize : ℕ) (messageBuff : List UInt8) :
    posted target (c.gather dataSize messageBuff).2 = [] := by
  have key (fuel : ℕ) (c : ClientDataSet) : posted target (drain fuel c).2 = [] := by
    induction fuel generalizing c with
    | zero => rfl
    | succ fuel ih =>
      simp only [drain]
      split_ifs
      · rfl
      · exact ih c.popReceived
  exact key _ _

theorem SendsOk.push (h : c.SendsOk) (dataSize : ℕ) (messageBuff : BufferPtr) :
    (c.pushSend (c.newSendContext dataSize messageBuff)).SendsOk := by
  refine ⟨push_inRange h.inRange _, fun x hx => ?_⟩
  rcases mem_push h.inRange hx with hx | rfl
  · exact h.queued x hx
  · exact ⟨_, rfl, rfl⟩

theorem sendRequest_kept (c : ClientDataSet) (dataSize : ℕ) (messageBuff : BufferPtr) :
    Kept c (c.sendRequest dataSize messageBuff).1 := by
  simp only [sendRequest]
  split_ifs
  · exact Kept.refl c
  all_goals
    exact ⟨⟨rfl, rfl, .inl rfl, .inl rfl, fun h => h.push dataSize messageBuff⟩, rfl⟩

/-- `SendRequest` posts a context it or an earlier call made, if the client is connected. -/
theorem sendRequest_posts {Q : CustomOverlapped → Prop} (target : ℕ) {messageBuff : BufferPtr}
    (hr : c.mSendDataQueue.InRange)
    (hq : ∀ x ∈ c.mSendDataQueue.contents, ∃ o, x = some o ∧ Q o)
    (hnew : Q (c.newSendContext dataSize messageBuff)) :
    ∀ op ∈ posted target (c.sendRequest dataSize messageBuff).2.1,
      c.mIsConnet = true ∧ ∃ o, op = ⟨target, .send (some o)⟩ ∧ Q o := by
  have hr' : (c.pushSend (c.newSendContext dataSize messageBuff)).mSendDataQueue.InRange :=
    push_inRange hr _
  simp only [sendRequest]
  split_ifs with hc hsize
  · simp
  · rw [size_eq] at hsize
    obtain ⟨x, hx⟩ := List.length_eq_one_iff.mp hsize
    have hmem : x ∈ (c.mSendDataQueue.push (some (c.newSendContext dataSize messageBuff))).1.contents :=
      hx ▸ List.mem_singleton_self x
    obtain ⟨o, rfl, ho⟩ : ∃ o, x = some o ∧ Q o := by
      rcases mem_push hr hmem with hold | rfl
      · exact hq x hold
      · exact ⟨_, rfl, hnew⟩
    intro op hop
    refine ⟨by simpa using hc, o, ?_, ho⟩
    simpa [posted, sendInternalWork, front_of_cons hr' hx] using hop
  · simp

theorem sendRequest_posted (target : ℕ) (h : c.SendsOk) (dataSize : ℕ) (messageBuff : BufferPtr) :
    ∀ op ∈ posted target (c.sendRequest dataSize messageBuff).2.1,
      ∃ o, op = ⟨target, .send (some o)⟩ ∧ o.operationType = .opSend :=
  fun op hop => (sendRequest_posts target h.inRange h.queued rfl op hop).2

end ClientDataSet

open ClientDataSet

namespace EchoServer

/-- An operation of a client in the map, with the context that `Process` is to find. -/
structure Armed (s : EchoServer) (op : Posted) : Prop where
  owner : op.owner < s.allocated
  context : match op.overlapped with
    | .accept => (s.heap op.owner).mAcceptContext = acceptContext op.owner
    | .receive => (s.heap op.owner).mReceiveContext = receiveContext op.owner
    | .send context => ∃ o, context = some o ∧ o.operationType = .opSend

structure Sound (s : EchoServer) : Prop where
  numbered : s.Numbered
  sends : ∀ i < s.allocated, (s.heap i).SendsOk

/-- No slot was added or connected. -/
structure Still (s s' : EchoServer) : Prop where
  map : s'.mClientDataConMap = s.mClientDataConMap
  allocated : s'.allocated = s.allocated
  nextId : s'.accumulatedClientId = s.accumulatedClientId
  slots : s'.currentClientMax = s.currentClientMax
  clients : ∀ i, Steady (s.heap i) (s'.heap i)

structure Calm (s s' : EchoServer) : Prop extends Still s s' where
  receiveBuf : ∀ i, (s'.heap i).mReceiveBuf = (s.heap i).mReceiveBuf

/-- Slots may have been added and connected; what is armed stays armed. -/
structure Advance (s s' : EchoServer) : Prop where
  sound : s'.Sound
  allocated : s.allocated ≤ s'.allocated
  connected : ∀ i < s.allocated, s.connected i = true → s'.connected i = true
  receiveBuf : ∀ i, (s'.heap i).mReceiveBuf = (s.heap i).mReceiveBuf
  armed : ∀ op, s.Armed op → s'.Armed op

variable {s s' : EchoServer} {target : ℕ} {c : ClientDataSet} {op : Posted}

theorem Calm.refl (s : EchoServer) : Calm s s :=
  ⟨⟨rfl, rfl, rfl, rfl, fun _ => (Kept.refl _).toSteady⟩, fun _ => rfl⟩

theorem Calm.trans {s'' : EchoServer} (h : Calm s s') (h' : Calm s' s'') : Calm s s'' where
  map := h'.map.trans h.map
  allocated := h'.allocated.trans h.allocated
  nextId := h'.nextId.trans h.nextId
  slots := h'.slots.trans h.slots
  clients := fun i => (h.clients i).trans (h'.clients i)
  receiveBuf := fun i => (h'.receiveBuf i).trans (h.receiveBuf i)

theorem assign_cases {P : ClientDataSet → ClientDataSet → Prop} (hself : P (s.heap target) c)
    (hrefl : ∀ c, P c c) (i : ℕ) : P (s.heap i) ((s.assign target c).heap i) := by
  by_cases hi : i = target
  · subst hi
    rw [assign_heap]
    exact hself
  · rw [show (s.assign target c).heap i = s.heap i from Function.update_of_ne hi _ _]
    exact hrefl _

theorem Still.assign (h : Steady (s.heap target) c) : Still s (s.assign target c) :=
  ⟨rfl, rfl, rfl, rfl, assign_cases h fun c => (Kept.refl c).toSteady⟩

theorem Calm.assign (h : Kept (s.heap target) c) : Calm s (s.assign target c) :=
  ⟨.assign h.toSteady, fun i => (assign_cases (P := Kept) h Kept.refl i).receiveBuf⟩

theorem Still.connected (h : Still s s') : s'.connected = s.connected := by
  funext i
  exact (h.clients i).isConnet

theorem Still.keys (h : Still s s') : s'.keys = s.keys := congrArg (List.map Prod.fst) h.map

theorem Still.connections (h : Still s s') : s'.connections = s.connections := by
  unfold EchoServer.connections
  rw [h.map]
  apply List.countP_congr
  intro entry _
  rw [(h.clients entry.2).isConnet]

theorem Still.numbered (h : Still s s') (hn : s.Numbered) : s'.Numbered := by
  refine ⟨by rw [h.map, h.allocated, hn.entries], fun i hi => ?_⟩
  rw [(h.clients i).id]
  exact hn.ids i (h.allocated ▸ hi)

theorem Still.sound (h : Still s s') (hs : s.Sound) : s'.Sound :=
  ⟨h.numbered hs.numbered, fun i hi => (h.clients i).sends (hs.sends i (h.allocated ▸ hi))⟩

theorem Still.settled (h : Still s s') (hs : s.Settled) : s'.Settled := by
  refine ⟨h.numbered hs.numbered, ?_, ?_⟩
  · rw [h.nextId, h.allocated, hs.nextId]
  · rw [h.slots, h.allocated, hs.slots]

theorem Still.armed (h : Still s s') (hn : s.Numbered) (ho : s.Armed op) : s'.Armed op := by
  obtain ⟨owner, overlapped⟩ := op
  obtain ⟨howner, hcontext⟩ := ho
  have hid : (s.heap owner).mID = owner := hn.ids owner howner
  refine ⟨h.allocated ▸ howner, ?_⟩
  cases overlapped with
  | accept =>
    rcases (h.clients owner).accept with he | he
    · exact he.trans hcontext
    · exact he.trans (by rw [hid])
  | receive =>
    rcases (h.clients owner).receive with he | he
    · exact he.trans hcontext
    · exact he.trans (by rw [hid])
  | send context => exact hcontext

theorem Calm.advance (h : Calm s s') (hs : s.Sound) : Advance s s' where
  sound := h.sound hs
  allocated := h.allocated.ge
  connected := fun i _ hi => by rw [h.connected, hi]
  receiveBuf := h.receiveBuf
  armed := fun _ ho => h.armed hs.numbered ho

theorem createClient_advance (hs : s.Sound) : Advance s (s.createClient s.allocated) := by
  have hheap (i : ℕ) (hi : i ≠ s.allocated) :
      (s.createClient s.allocated).heap i = s.heap i := Function.update_of_ne hi _ _
  have hnew : (s.createClient s.allocated).heap s.allocated =
      .new (s.heap s.allocated) s.allocated s.sockets := Function.update_self _ _ _
  refine ⟨⟨hs.numbered.createClient, fun i hi => ?_⟩, Nat.le_succ _, fun i hi hc => ?_,
    fun i => ?_, fun op ho => ?_⟩
  · by_cases hn : i = s.allocated
    · subst hn
      rw [hnew]
      exact ⟨new_inRange _, by simp [ClientDataSet.new]⟩
    · rw [hheap i hn]
      exact hs.sends i (Nat.lt_of_le_of_ne (Nat.lt_succ_iff.mp hi) hn)
  · rw [createClient_connected, if_neg hi.ne, hc]
  · by_cases hn : i = s.allocated
    · subst hn
      rw [hnew]
      rfl
    · rw [hheap i hn]
  · refine ⟨Nat.lt_succ_of_lt ho.owner, ?_⟩
    rw [hheap op.owner ho.owner.ne]
    exact ho.context

theorem feedBack_advance (hs : s.Sound) (target : ℕ) :
    Advance s (s.assign target ((s.heap target).setConnet true)) := by
  have hheap (i : ℕ) : (s.assign target ((s.heap target).setConnet true)).heap i =
      { s.heap i with mIsConnet := if i = target then true else (s.heap i).mIsConnet } := by
    by_cases hi : i = target
    · subst hi
      rw [assign_heap, if_pos rfl]
      rfl
    · rw [if_neg hi]
      exact Function.update_of_ne hi _ _
  refine ⟨⟨hs.numbered.assign rfl, fun i hi => ?_⟩, Nat.le_refl _, fun i _ hc => ?_,
    fun i => ?_, fun op ho => ⟨ho.owner, ?_⟩⟩
  · rw [hheap i]
    exact ⟨(hs.sends i hi).inRange, (hs.sends i hi).queued⟩
  · rw [assign_connected]
    split_ifs
    · rfl
    · exact hc
  · rw [hheap i]
  · rw [hheap op.owner]
    exact ho.context

theorem Advance.counters (hs : s.Sound) (hh : s'.heap = s.heap)
    (hm : s'.mClientDataConMap = s.mClientDataConMap) (ha : s'.allocated = s.allocated) :
    Advance s s' := by
  have hsound : s'.Sound := by
    refine ⟨⟨by rw [hm, ha, hs.numbered.entries], fun i hi => ?_⟩, fun i hi => ?_⟩
    · rw [hh]
      exact hs.numbered.ids i (ha ▸ hi)
    · rw [hh]
      exact hs.sends i (ha ▸ hi)
  refine ⟨hsound, ha.ge, fun i _ hi => ?_, fun i => by rw [hh], fun op ho => ⟨ha ▸ ho.owner, ?_⟩⟩
  · unfold EchoServer.connected
    rw [hh]
    exact hi
  · rw [hh]
    exact ho.context

theorem fillAccept_armed (hs : s.Sound) (ht : target < s.allocated) :
    (s.assign target (s.heap target).fillAcceptContext).Armed ⟨target, .accept⟩ := by
  refine ⟨ht, ?_⟩
  show ((s.assign target (s.heap target).fillAcceptContext).heap target).mAcceptContext = _
  rw [assign_heap, ← hs.numbered.ids target ht]
  rfl

theorem fillReceive_armed (hs : s.Sound) (ht : target < s.allocated) :
    (s.assign target (s.heap target).fillReceiveContext).Armed ⟨target, .receive⟩ := by
  refine ⟨ht, ?_⟩
  show ((s.assign target (s.heap target).fillReceiveContext).heap target).mReceiveContext = _
  rw [assign_heap, ← hs.numbered.ids target ht]
  rfl

theorem Numbered.connections_card (h : s.Numbered) :
    s.connections = ((Finset.range s.allocated).filter fun i => s.connected i = true).card := by
  rw [connections, h.entries, List.countP_map, List.countP_eq_length_filter, Finset.card_def,
    Finset.filter_val, Finset.range_val, Multiset.range, Multiset.filter_coe, Multiset.coe_card]
  congr 1
  apply List.filter_congr
  intro i _
  exact Bool.decide_eq_true.symm

theorem Numbered.connections_full (h : s.Numbered) (hc : s.allocated ≤ s.connections) :
    ∀ i < s.allocated, s.connected i = true := by
  have hcard : (Finset.range s.allocated).card ≤
      ((Finset.range s.allocated).filter fun i => s.connected i = true).card := by
    rw [← h.connections_card, Finset.card_range]
    exact hc
  have heq := Finset.eq_of_subset_of_card_le (Finset.filter_subset _ _) hcard
  intro i hi
  have hmem := Finset.mem_range.mpr hi
  rw [← heq] at hmem
  exact (Finset.mem_filter.mp hmem).2

theorem createClient_connections (h : s.Numbered) :
    (s.createClient s.allocated).connections = s.connections := by
  rw [h.createClient.connections_card, h.connections_card]
  congr 1
  ext i
  have ha : (s.createClient s.allocated).allocated = s.allocated + 1 := rfl
  simp only [ha, Finset.mem_filter, Finset.mem_range, createClient_connected]
  by_cases hi : i = s.allocated
  · simp [hi]
  · simp only [if_neg hi]
    exact and_congr_left fun _ => ⟨fun h => by omega, fun h => by omega⟩

theorem feedBack_connections (h : s.Numbered) (ht : target < s.allocated)
    (hc : s.connected target = false) :
    (s.assign target ((s.heap target).setConnet true)).connections = s.connections + 1 := by
  have hn : (s.assign target ((s.heap target).setConnet true)).Numbered := h.assign rfl
  rw [hn.connections_card, h.connections_card, ← Finset.card_insert_of_notMem (a := target)]
  · congr 1
    ext i
    show i ∈ (Finset.range s.allocated).filter _ ↔ _
    simp only [Finset.mem_filter, Finset.mem_insert, Finset.mem_range, assign_connected]
    by_cases hi : i = target
    · simp [hi, ht, ClientDataSet.setConnet]
    · simp [hi]
  · simp [hc]

theorem createClients_sound (n : ℕ) (hs : s.Sound) : (createClients n s.allocated s).Sound := by
  induction n generalizing s with
  | zero => exact hs
  | succ n ih => exact ih (createClient_advance hs).sound

theorem tryAccept_kept (c : ClientDataSet) (errorCode : ℤ) : Kept c (c.tryAccept errorCode).1 := by
  simp only [tryAccept]
  split_ifs
  · exact Kept.refl c
  · exact Kept.refl c
  · exact tryAcceptStep_kept c errorCode .fill

theorem tryAcceptAll_calm (errorCode : ℤ → ℤ) (ids : List ℤ) (s : EchoServer) :
    Calm s (tryAcceptAll errorCode ids s).1 := by
  induction ids generalizing s with
  | nil => exact Calm.refl s
  | cons id rest ih =>
    simp only [tryAcceptAll]
    cases s.clientFinder id with
    | none => exact ih s
    | some target => exact (Calm.assign (tryAccept_kept _ _)).trans (ih _)

theorem tryAcceptAll_armed (errorCode : ℤ → ℤ) (ids : List ℤ) (hs : s.Sound) :
    ∀ op ∈ (tryAcceptAll errorCode ids s).2, (tryAcceptAll errorCode ids s).1.Armed op := by
  induction ids generalizing s with
  | nil => simp [tryAcceptAll]
  | cons id rest ih =>
    simp only [tryAcceptAll]
    cases hf : s.clientFinder id with
    | none => exact ih hs
    | some target =>
      have ht := (hs.numbered.finder.mp hf).2
      have hcalm := Calm.assign (tryAccept_kept (s.heap target) (errorCode id))
      have hs' := hcalm.sound hs
      have hrest := tryAcceptAll_calm errorCode rest
        (s.assign target ((s.heap target).tryAccept (errorCode id)).1)
      intro op hop
      rcases List.mem_append.mp hop with hop | hop
      · apply hrest.armed hs'.numbered
        simp only [tryAccept] at hop ⊢
        split_ifs at hop ⊢
        · simp at hop
        · simp at hop
        · obtain rfl : op = ⟨target, .accept⟩ := by simpa [posted] using hop
          exact fillAccept_armed hs ht
      · exact ih hs' op hop

theorem new_sound (memory : ℕ → ClientDataSet) : (new memory).Sound :=
  ⟨new_numbered memory, fun _ hi => absurd hi (Nat.not_lt_zero _)⟩

theorem start_armed (memory : ℕ → ClientDataSet) (n : ℕ) (errorCode : ℤ → ℤ) :
    ((new memory).prepareSocket n errorCode).1.Sound ∧
      ∀ op ∈ ((new memory).prepareSocket n errorCode).2,
        ((new memory).prepareSocket n errorCode).1.Armed op := by
  have hs : (createClients n (new memory).accumulatedClientId (new memory)).Sound :=
    createClients_sound n (new_sound memory)
  have hcalm := tryAcceptAll_calm errorCode
    (createClients n (new memory).accumulatedClientId (new memory)).keys
    (createClients n (new memory).accumulatedClientId (new memory))
  have hadv : Advance _ ((new memory).prepareSocket n errorCode).1 :=
    Advance.counters (hcalm.sound hs) rfl rfl rfl
  exact ⟨hadv.sound, fun op hop => hadv.armed op (tryAcceptAll_armed errorCode _ hs op hop)⟩

end EchoServer

end EchoIocp
