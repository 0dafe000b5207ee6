import EchoIocp.Frame

namespace EchoIocp

open LockFreeCircleQueue ClientDataSet

namespace EchoServer

/-- One slot more than `accumulatedClientId` and `currentClientMax` tell, and that one alone is not
connected. -/
structure Growing (s : EchoServer) (currentId : ℤ) : Prop where
  pos : 0 < s.allocated
  currentId : currentId = s.allocated
  nextId : s.accumulatedClientId + 1 = s.allocated
  slots : s.currentClientMax + 1 = s.allocated
  full : ∀ i : ℕ, (i : ℤ) < s.accumulatedClientId → s.connected i = true
  fresh : ∀ i : ℕ, (i : ℤ) = s.accumulatedClientId → s.connected i = false

def Full (s : EchoServer) : Prop := ∀ i < s.allocated, s.connected i = true

def SlotsOk (s : EchoServer) : Option AcceptPc → Prop
  | some (.isEmpty currentMax) => s.Settled ∧ currentMax = s.allocated
  | some (.prepare .loadId) => s.Settled ∧ s.Full
  | some (.prepare (.create currentId limit)) =>
    currentId = s.allocated ∧ limit = s.accumulatedClientId + 1 ∧
      (s.Settled ∧ s.Full ∨ s.Growing currentId)
  | some (.prepare (.next currentId rest)) =>
    s.Growing currentId ∧ ∀ id ∈ rest, ∃ i < s.allocated, (i : ℤ) = id
  | some (.prepare (.tryAccept currentId target _ rest)) =>
    s.Growing currentId ∧ target < s.allocated ∧ ∀ id ∈ rest, ∃ i < s.allocated, (i : ℤ) = id
  | some (.prepare (.storeId currentId)) => s.Growing currentId
  | some (.prepare .loadMax) =>
    s.accumulatedClientId = s.allocated ∧ s.currentClientMax + 1 = s.allocated
  | some (.prepare (.storeMax currentMax)) =>
    s.accumulatedClientId = s.allocated ∧ currentMax + 1 = s.allocated
  | _ => s.Settled

/-- What the token in the hands of the accept thread tells of its client. -/
def HoldsAccept (s : EchoServer) : AcceptPc → Prop
  | .finder id => ∃ i < s.allocated, (i : ℤ) = id ∧ s.connected i = false
  | .feedBack target => target < s.allocated ∧ s.connected target = false
  | .ready target _ => target < s.allocated ∧ s.connected target = true
  | .prepare (.tryAccept _ target .fill _) | .prepare (.tryAccept _ target .post _) =>
    target < s.allocated ∧ s.connected target = false
  | _ => True

/-- Connected and not counted yet. -/
def pending : Option AcceptPc → ℤ
  | some (.ready _ _) | some .loadCount | some (.storeCount _) => 1
  | _ => 0

theorem pending_prepare (pc : Option PreparePc) : pending (pc.map .prepare) = 0 := by
  cases pc <;> rfl

/-- `currentClientCount` stands for slots connected, also where a thread is about to store it. -/
structure CounterOk (s : EchoServer) (a : Option AcceptPc) (d : Option DisconnectPc) : Prop where
  count : s.currentClientCount + pending a ≤ s.connections
  accept : ∀ v, a = some (.storeCount v) → v + pending a ≤ s.connections
  disconnect : ∀ target v, d = some (.storeCount target v) → v + pending a ≤ s.connections

/-- A disconnect is of a connected client, so its `TryAccept` does nothing. -/
def DisconnectOk (s : EchoServer) : Option DisconnectPc → Prop
  | some (.loadCount target) | some (.storeCount target _) | some (.tryAccept target .guard) =>
    target < s.allocated ∧ s.connected target = true
  | some (.tryAccept _ .fill) | some (.tryAccept _ .post) => False
  | some (.finder _) | none => True

/-- The operation a thread has filled the context of and not posted yet. -/
def acceptPosting : Option AcceptPc → List Posted
  | some (.ready target .post) => [⟨target, .receive⟩]
  | some (.prepare (.tryAccept _ target .post _)) => [⟨target, .accept⟩]
  | _ => []

def receivePosting : Option ReceivePc → List Posted
  | some (.ready target .post) => [⟨target, .receive⟩]
  | _ => []

variable {s s' : EchoServer} {a : Option AcceptPc} {d : Option DisconnectPc} {pc : AcceptPc}

theorem Still.growing (h : Still s s') {currentId : ℤ} (hg : s.Growing currentId) :
    s'.Growing currentId := by
  refine ⟨h.allocated ▸ hg.pos, ?_, ?_, ?_, fun i hi => ?_, fun i hi => ?_⟩
  · rw [h.allocated, hg.currentId]
  · rw [h.allocated, h.nextId, hg.nextId]
  · rw [h.allocated, h.slots, hg.slots]
  · rw [h.connected]
    exact hg.full i (h.nextId ▸ hi)
  · rw [h.connected]
    exact hg.fresh i (h.nextId ▸ hi)

theorem Still.full (h : Still s s') (hf : s.Full) : s'.Full := by
  intro i hi
  rw [h.connected]
  exact hf i (h.allocated ▸ hi)

theorem Still.slotsOk (h : Still s s') (hs : s.SlotsOk a) : s'.SlotsOk a := by
  rcases a with _ | pc
  · exact h.settled hs
  cases pc with
  | finder | feedBack | ready | loadCount | storeCount | loadMax => exact h.settled hs
  | isEmpty currentMax => exact ⟨h.settled hs.1, h.allocated ▸ hs.2⟩
  | prepare pc =>
    simp only [SlotsOk] at hs ⊢
    cases pc with
    | loadId => exact ⟨h.settled hs.1, h.full hs.2⟩
    | create currentId limit =>
      rw [h.allocated, h.nextId]
      exact ⟨hs.1, hs.2.1, hs.2.2.imp (fun hf => ⟨h.settled hf.1, h.full hf.2⟩) h.growing⟩
    | next currentId rest =>
      rw [h.allocated]
      exact ⟨h.growing hs.1, hs.2⟩
    | tryAccept currentId target pc rest =>
      rw [h.allocated]
      exact ⟨h.growing hs.1, hs.2⟩
    | storeId currentId => exact h.growing hs
    | loadMax =>
      rw [h.allocated, h.nextId, h.slots]
      exact hs
    | storeMax currentMax =>
      rw [h.allocated, h.nextId]
      exact hs

theorem Still.counterOk (h : Still s s') (hc : CounterOk s a d)
    (hcount : s'.currentClientCount = s.currentClientCount) : CounterOk s' a d := by
  refine ⟨?_, fun v hv => ?_, fun target v hv => ?_⟩
  · rw [h.connections, hcount]
    exact hc.count
  · rw [h.connections]
    exact hc.accept v hv
  · rw [h.connections]
    exact hc.disconnect target v hv

theorem disconnectOk_mono (ha : s.allocated ≤ s'.allocated)
    (hc : ∀ i < s.allocated, s.connected i = true → s'.connected i = true)
    (hd : DisconnectOk s d) : DisconnectOk s' d := by
  have key (target : ℕ) (hd : target < s.allocated ∧ s.connected target = true) :
      target < s'.allocated ∧ s'.connected target = true :=
    ⟨hd.1.trans_le ha, hc target hd.1 hd.2⟩
  rcases d with _ | pc
  · trivial
  cases pc with
  | finder => trivial
  | loadCount target | storeCount target v => exact key target hd
  | tryAccept target pc =>
    cases pc with
    | guard => exact key target hd
    | fill | post => exact hd

theorem Advance.disconnectOk (h : Advance s s') (hd : DisconnectOk s d) : DisconnectOk s' d :=
  disconnectOk_mono h.allocated h.connected hd

theorem Still.disconnectOk (h : Still s s') (hd : DisconnectOk s d) : DisconnectOk s' d :=
  disconnectOk_mono h.allocated.ge (fun i _ hc => by rw [h.connected, hc]) hd

/-- The client a thread in `Send` has found is in the map. -/
def SendOk (s : EchoServer) : Option SendPc → Prop
  | some (.request target _) => target < s.allocated
  | _ => True

theorem sendOk_mono {p : Option SendPc} (ha : s.allocated ≤ s'.allocated) (hk : s.SendOk p) :
    s'.SendOk p := by
  rcases p with _ | pc
  · trivial
  cases pc with
  | finder => trivial
  | request target packet => exact Nat.lt_of_lt_of_le hk ha

theorem acceptStep_advance (errorCode : ℤ) (hs : s.Sound) (hk : s.SlotsOk (some pc)) :
    Advance s (s.acceptStep errorCode pc).1 := by
  have hrefl : Advance s s := (Calm.refl s).advance hs
  cases pc with
  | finder | loadCount | loadMax => exact hrefl
  | feedBack target => exact feedBack_advance hs target
  | ready target pc => exact (Calm.assign (receiveReadyStep_kept _ pc)).advance hs
  | storeCount v => exact Advance.counters hs rfl rfl rfl
  | isEmpty currentMax =>
    simp only [acceptStep]
    split_ifs <;> exact hrefl
  | prepare pc =>
    simp only [acceptStep]
    cases pc with
    | loadId | loadMax => exact hrefl
    | create currentId limit =>
      obtain ⟨rfl, -⟩ : currentId = s.allocated ∧ _ := hk
      simp only [prepareStep]
      split_ifs
      · exact createClient_advance hs
      · exact hrefl
    | next currentId rest =>
      cases rest with
      | nil => exact hrefl
      | cons id rest =>
        simp only [prepareStep]
        split <;> exact hrefl
    | tryAccept currentId target pc rest =>
      exact (Calm.assign (tryAcceptStep_kept _ errorCode pc)).advance hs
    | storeId | storeMax => exact Advance.counters hs rfl rfl rfl

theorem createClient_growing (hset : s.Settled) (hfull : s.Full) :
    (s.createClient s.allocated).Growing (s.allocated + 1) := by
  have hnext := hset.nextId
  have hslots := hset.slots
  refine ⟨Nat.succ_pos _, by simp [createClient], ?_, ?_, fun i hi => ?_, fun i hi => ?_⟩
  · simp only [createClient]
    omega
  · simp only [createClient]
    omega
  · have hi' : i < s.allocated := by
      simp only [createClient] at hi
      omega
    rw [createClient_connected, if_neg hi'.ne]
    exact hfull i hi'
  · have hi' : i = s.allocated := by
      simp only [createClient] at hi
      omega
    rw [createClient_connected, if_pos hi']

theorem prepareStep_slots {pc : PreparePc} (errorCode : ℤ) (hn : s.Numbered)
    (hk : s.SlotsOk (some (.prepare pc))) :
    (s.prepareStep clientIncrease errorCode pc).1.SlotsOk
      ((s.prepareStep clientIncrease errorCode pc).2.1.map .prepare) := by
  cases pc with
  | loadId => exact ⟨hk.1.nextId, rfl, .inl hk⟩
  | create currentId limit =>
    obtain ⟨rfl, rfl, hk⟩ := hk
    simp only [prepareStep]
    split_ifs with hlt
    · -- the one round of the loop
      refine ⟨by simp [createClient], rfl, .inr ?_⟩
      rcases hk with ⟨hset, hfull⟩ | hg
      · exact createClient_growing hset hfull
      · have := hg.nextId
        omega
    · rcases hk with ⟨hset, -⟩ | hg
      · have := hset.nextId
        omega
      · refine ⟨hg, fun id hid => ?_⟩
        rw [hn.keys_eq, List.mem_map] at hid
        obtain ⟨i, hi, rfl⟩ := hid
        exact ⟨i, List.mem_range.mp hi, rfl⟩
  | next currentId rest =>
    cases rest with
    | nil => exact hk.1
    | cons id rest =>
      have hrest : ∀ id ∈ rest, ∃ i < s.allocated, (i : ℤ) = id :=
        fun id h => hk.2 id (List.mem_cons_of_mem _ h)
      simp only [prepareStep]
      cases hf : s.clientFinder id with
      | none => exact ⟨hk.1, hrest⟩
      | some target => exact ⟨hk.1, (hn.finder.mp hf).2, hrest⟩
  | tryAccept currentId target pc rest =>
    obtain ⟨hg, ht, hrest⟩ := hk
    have hcalm := Calm.assign (tryAcceptStep_kept (s.heap target) errorCode pc)
    simp only [prepareStep]
    cases ((s.heap target).tryAcceptStep errorCode pc).2.1 with
    | none => exact ⟨hcalm.growing hg, hrest⟩
    | some pc => exact ⟨hcalm.growing hg, ht, hrest⟩
  | storeId currentId => exact ⟨hk.currentId, hk.slots⟩
  | loadMax => exact hk
  | storeMax currentMax => exact ⟨⟨hn.entries, hn.ids⟩, hk.1, hk.2⟩

theorem acceptStep_slots (errorCode : ℤ) (hn : s.Numbered) (hk : s.SlotsOk (some pc))
    (hc : CounterOk s (some pc) d) :
    (s.acceptStep errorCode pc).1.SlotsOk (s.acceptStep errorCode pc).2.1 := by
  cases pc with
  | finder id =>
    simp only [acceptStep]
    cases s.clientFinder id <;> exact hk
  | feedBack target =>
    have hn' : (s.assign target ((s.heap target).setConnet true)).Numbered := hn.assign rfl
    exact ⟨hn', hk.nextId, hk.slots⟩
  | ready target pc =>
    have hset := (Calm.assign (receiveReadyStep_kept (s.heap target) pc)).settled hk
    simp only [acceptStep]
    cases ((s.heap target).receiveReadyStep pc).2.1 <;> exact hset
  | loadCount => exact hk
  | storeCount v => exact ⟨⟨hn.entries, hn.ids⟩, hk.nextId, hk.slots⟩
  | loadMax => exact ⟨hk, hk.slots⟩
  | isEmpty currentMax =>
    obtain ⟨hset, rfl⟩ := hk
    by_cases hgrow : s.allocated - s.currentClientCount ≤ 0
    · rw [acceptStep_empty errorCode hgrow]
      -- a counter that reaches the size of the map counts slots that are all connected
      have hcount : s.currentClientCount ≤ s.connections := by simpa [pending] using hc.count
      exact ⟨hset, hn.connections_full (by omega)⟩
    · rw [acceptStep_free errorCode hgrow]
      exact hset
  | prepare pc => exact prepareStep_slots errorCode hn hk

theorem prepareStep_connections {pc : PreparePc} (errorCode : ℤ) (hn : s.Numbered)
    (hk : s.SlotsOk (some (.prepare pc))) :
    (s.prepareStep clientIncrease errorCode pc).1.connections = s.connections := by
  cases pc with
  | create currentId limit =>
    obtain ⟨rfl, -⟩ := hk
    simp only [prepareStep]
    split_ifs
    · exact createClient_connections hn
    · rfl
  | next currentId rest =>
    cases rest with
    | nil => rfl
    | cons id rest =>
      simp only [prepareStep]
      split <;> rfl
  | tryAccept currentId target pc rest =>
    exact (Calm.assign (tryAcceptStep_kept (s.heap target) errorCode pc)).connections
  | loadId | storeId | loadMax | storeMax => rfl

/-- Lost updates make `currentClientCount` too low, never too high. -/
theorem acceptStep_counter (errorCode : ℤ) (hn : s.Numbered) (hk : s.SlotsOk (some pc))
    (hh : s.HoldsAccept pc) (hc : CounterOk s (some pc) d) :
    CounterOk (s.acceptStep errorCode pc).1 (s.acceptStep errorCode pc).2.1 d := by
  cases pc with
  | finder id =>
    simp only [acceptStep]
    cases s.clientFinder id <;> exact ⟨hc.count, by simp, hc.disconnect⟩
  | feedBack target =>
    have hconn := feedBack_connections hn hh.1 hh.2
    obtain ⟨hcount, -, hdis⟩ := hc
    simp only [pending, Int.add_zero] at hcount hdis
    simp only [acceptStep]
    refine ⟨?_, by simp, fun target v hv => ?_⟩
    · rw [hconn, Int.natCast_add]
      exact Int.add_le_add_right hcount 1
    · rw [hconn, Int.natCast_add]
      exact Int.add_le_add_right (hdis target v hv) 1
  | ready target pc =>
    have hcalm := Calm.assign (receiveReadyStep_kept (s.heap target) pc)
    have hc' := hcalm.counterOk hc rfl
    simp only [acceptStep]
    cases ((s.heap target).receiveReadyStep pc).2.1 <;>
      exact ⟨hc'.count, by simp, hc'.disconnect⟩
  | loadCount =>
    refine ⟨hc.count, fun v hv => ?_, hc.disconnect⟩
    obtain rfl : s.currentClientCount = v := by simpa [acceptStep] using hv
    exact hc.count
  | storeCount v =>
    have hv : v + 1 ≤ s.connections := hc.accept v rfl
    refine ⟨?_, by simp [acceptStep], fun target w hw => ?_⟩
    · exact (Int.add_zero _).trans_le hv
    · -- `Disconnect` may still hold the value loaded before this store
      have hw' : w + 1 ≤ s.connections := hc.disconnect target w hw
      have hle : w ≤ s.connections := by omega
      exact (Int.add_zero _).trans_le hle
  | loadMax => exact ⟨hc.count, by simp [acceptStep], hc.disconnect⟩
  | isEmpty currentMax =>
    by_cases hgrow : currentMax - s.currentClientCount ≤ 0
    · rw [acceptStep_empty errorCode hgrow]
      exact ⟨hc.count, by simp, hc.disconnect⟩
    · rw [acceptStep_free errorCode hgrow]
      exact ⟨hc.count, by simp, hc.disconnect⟩
  | prepare pc =>
    have hconn := prepareStep_connections errorCode hn hk
    have hcount := (prepareStep_count clientIncrease s errorCode pc).1
    have hpend := pending_prepare (s.prepareStep clientIncrease errorCode pc).2.1
    simp only [acceptStep]
    refine ⟨?_, fun v hv => ?_, fun target v hv => ?_⟩
    · rw [hconn, hcount, hpend]
      exact hc.count
    · simp at hv
    · rw [hconn, hpend]
      exact hc.disconnect target v hv

theorem acceptStep_armed (errorCode : ℤ) (hs : s.Sound) (hh : s.HoldsAccept pc)
    (hp : ∀ op ∈ acceptPosting (some pc), s.Armed op) :
    ∀ op ∈ (s.acceptStep errorCode pc).2.2 ++ acceptPosting (s.acceptStep errorCode pc).2.1,
      (s.acceptStep errorCode pc).1.Armed op := by
  cases pc with
  | finder id =>
    simp only [acceptStep]
    cases s.clientFinder id <;> simp [acceptPosting]
  | feedBack | loadCount | storeCount | loadMax => simp [acceptStep, acceptPosting]
  | ready target pc =>
    cases pc with
    | guard =>
      simp only [acceptStep, receiveReadyStep]
      split_ifs <;> simp [acceptPosting]
    | fill => simpa [acceptStep, acceptPosting, receiveReadyStep] using fillReceive_armed hs hh.1
    | post =>
      have harmed := hp ⟨target, .receive⟩ (by simp [acceptPosting])
      simpa [acceptStep, acceptPosting, receiveReadyStep, posted] using harmed
  | isEmpty currentMax =>
    simp only [acceptStep]
    split_ifs <;> simp [acceptPosting]
  | prepare pc =>
    simp only [acceptStep]
    cases pc with
    | loadId | storeId | loadMax | storeMax => simp [prepareStep, acceptPosting]
    | create currentId limit =>
      simp only [prepareStep]
      split_ifs <;> simp [acceptPosting]
    | next currentId rest =>
      cases rest with
      | nil => simp [prepareStep, acceptPosting]
      | cons id rest =>
        simp only [prepareStep]
        split <;> simp [acceptPosting]
    | tryAccept currentId target pc rest =>
      cases pc with
      | guard =>
        simp only [prepareStep, tryAcceptStep]
        split_ifs <;> simp [acceptPosting]
      | fill => simpa [prepareStep, acceptPosting, tryAcceptStep] using fillAccept_armed hs hh.1
      | post =>
        have harmed := hp ⟨target, .accept⟩ (by simp [acceptPosting])
        simpa [prepareStep, acceptPosting, tryAcceptStep, posted] using harmed

theorem receiveStep_armed {pc : ReceivePc} (errorCode : ℤ) (hs : s.Sound)
    (ht : ∀ target pc', pc = .ready target pc' → target < s.allocated)
    (hp : ∀ op ∈ receivePosting (some pc), s.Armed op) :
    ∀ op ∈ (s.receiveStep errorCode pc).2.2 ++ receivePosting (s.receiveStep errorCode pc).2.1,
      (s.receiveStep errorCode pc).1.Armed op := by
  cases pc with
  | finder packet =>
    simp only [receiveStep]
    cases s.clientFinder packet.clientID <;> simp [receivePosting]
  | gather target packet => simp [receiveStep, receivePosting, gather_posted]
  | ready target pc =>
    cases pc with
    | guard =>
      simp only [receiveStep, receiveReadyStep]
      split_ifs <;> simp [receivePosting]
    | fill =>
      simpa [receiveStep, receivePosting, receiveReadyStep] using
        fillReceive_armed hs (ht target _ rfl)
    | post =>
      have harmed := hp ⟨target, .receive⟩ (by simp [receivePosting])
      simpa [receiveStep, receivePosting, receiveReadyStep, posted] using harmed

theorem receiveStep_calm (s : EchoServer) (errorCode : ℤ) (pc : ReceivePc) :
    Calm s (s.receiveStep errorCode pc).1 := by
  cases pc with
  | finder packet => exact Calm.refl s
  | gather target packet => exact Calm.assign (gather_kept _ _ _)
  | ready target pc => exact Calm.assign (receiveReadyStep_kept _ pc)

theorem request_armed (hs : s.Sound) (ht : target < s.allocated) (dataSize : ℕ)
    (messageBuff : BufferPtr) :
    ∀ op ∈ posted target ((s.heap target).sendRequest dataSize messageBuff).2.1,
      (s.assign target ((s.heap target).sendRequest dataSize messageBuff).1).Armed op := by
  intro op hop
  obtain ⟨o, rfl, ho⟩ := sendRequest_posted target (hs.sends target ht) dataSize messageBuff op hop
  exact ⟨ht, o, rfl, ho⟩

theorem sendStep_calm (s : EchoServer) (errorCode : ℤ) (pc : SendPc) :
    Calm s (s.sendStep errorCode pc).1 := by
  cases pc with
  | finder packet => exact Calm.refl s
  | request target packet => exact Calm.assign (sendRequest_kept _ _ _)

theorem sendStep_spec {pc : SendPc} (errorCode : ℤ) (hs : s.Sound) (hk : s.SendOk (some pc)) :
    (s.sendStep errorCode pc).1.SendOk (s.sendStep errorCode pc).2.1 ∧
      ∀ op ∈ (s.sendStep errorCode pc).2.2, (s.sendStep errorCode pc).1.Armed op ∧
        ∃ context, op.overlapped = .send context := by
  cases pc with
  | finder packet =>
    simp only [sendStep]
    cases hf : s.clientFinder packet.clientID with
    | none => simp [SendOk]
    | some target => simpa [SendOk] using (hs.numbered.finder.mp hf).2
  | request target packet =>
    refine ⟨trivial, fun op hop => ⟨request_armed hs hk _ _ op hop, ?_⟩⟩
    obtain ⟨o, rfl, -⟩ := sendRequest_posted target (hs.sends target hk) _ _ op hop
    exact ⟨some o, rfl⟩

/-- `Disconnect` of a connected client moves the counter and nothing else. -/
theorem disconnectStep_spec {pc : DisconnectPc} (errorCode : ℤ) (hd : s.DisconnectOk (some pc))
    (hf : ∀ id target, pc = .finder id → s.clientFinder id = some target →
      target < s.allocated ∧ s.connected target = true) :
    Calm s (s.disconnectStep errorCode pc).1 ∧
      (s.disconnectStep errorCode pc).1.DisconnectOk (s.disconnectStep errorCode pc).2.1 ∧
      (s.disconnectStep errorCode pc).2.2 = [] := by
  cases pc with
  | finder id =>
    refine ⟨Calm.refl s, ?_, rfl⟩
    simp only [disconnectStep]
    cases hfind : s.clientFinder id with
    | none => trivial
    | some target => exact hf id target rfl hfind
  | loadCount target => exact ⟨Calm.refl s, hd, rfl⟩
  | storeCount target v =>
    exact ⟨⟨⟨rfl, rfl, rfl, rfl, fun _ => (Kept.refl _).toSteady⟩, fun _ => rfl⟩, hd, rfl⟩
  | tryAccept target pc =>
    cases pc with
    | guard =>
      have hc : (s.heap target).mIsConnet = true := hd.2
      simp only [disconnectStep, tryAcceptStep, hc, if_true, assign_self]
      exact ⟨Calm.refl s, trivial, rfl⟩
    | fill | post => exact hd.elim

theorem disconnectStep_counter {a : Option AcceptPc} {pc : DisconnectPc} (errorCode : ℤ)
    (hcalm : Calm s (s.disconnectStep errorCode pc).1) (hc : CounterOk s a (some pc)) :
    CounterOk (s.disconnectStep errorCode pc).1 a (s.disconnectStep errorCode pc).2.1 := by
  cases pc with
  | finder id => exact ⟨hc.count, hc.accept, by simp [disconnectStep]⟩
  | loadCount target =>
    refine ⟨hc.count, hc.accept, fun target' v hv => ?_⟩
    obtain ⟨-, rfl⟩ : target = target' ∧ s.currentClientCount = v := by
      simpa [disconnectStep] using hv
    exact hc.count
  | storeCount target v =>
    have hv : v + pending a ≤ s.connections := hc.disconnect target v rfl
    refine ⟨?_, hc.accept, by simp [disconnectStep]⟩
    show v - 1 + pending a ≤ s.connections
    omega
  | tryAccept target pc =>
    refine ⟨?_, ?_, by simp [disconnectStep]⟩
    · rw [hcalm.connections]
      exact hc.count
    · rw [hcalm.connections]
      exact hc.accept

end EchoServer

end EchoIocp
