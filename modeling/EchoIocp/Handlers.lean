import EchoIocp.Lib.Machine
import EchoIocp.EchoServer

namespace EchoIocp

namespace ClientDataSet

/-- Where a call of `TryAccept` is. -/
inductive TryAcceptPc
  | guard
  | fill
  | post

def tryAcceptStep (c : ClientDataSet) (errorCode : ℤ) :
    TryAcceptPc → ClientDataSet × Option TryAcceptPc × List Call
  | .guard =>
    if c.mIsConnet then (c, none, [])
    else if errorCode ≠ 0 then (c, none, [])
    else (c, some .fill, [])
  | .fill => (c.fillAcceptContext, some .post, [])
  | .post => (c, none, [.acceptEx c.mAcceptContext])

/-- Where a call of `ReceiveReady` is. -/
inductive ReceiveReadyPc
  | guard
  | fill
  | post

def receiveReadyStep (c : ClientDataSet) :
    ReceiveReadyPc → ClientDataSet × Option ReceiveReadyPc × List Call
  | .guard => if !c.mIsConnet then (c, none, []) else (c, some .fill, [])
  | .fill => (c.fillReceiveContext, some .post, [])
  | .post => (c, none, [.wsaRecv c.mReceiveContext.wsabuf c.mReceiveContext])

end ClientDataSet

open ClientDataSet

namespace EchoServer

/-- Where a call of `PrepareSocket` is. -/
inductive PreparePc
  | loadId
  | create (currentId limit : ℤ)
  | next (currentId : ℤ) (rest : List ℤ)
  | tryAccept (currentId : ℤ) (target : ℕ) (pc : TryAcceptPc) (rest : List ℤ)
  | storeId (currentId : ℤ)
  | loadMax
  | storeMax (currentMax : ℤ)

def prepareStep (count : ℕ) (s : EchoServer) (errorCode : ℤ) :
    PreparePc → EchoServer × Option PreparePc × List Posted
  | .loadId =>
    let currentId := s.accumulatedClientId
    (s, some (.create currentId (currentId + count)), [])
  | .create currentId limit =>
    if currentId < limit then (s.createClient currentId, some (.create (currentId + 1) limit), [])
    else (s, some (.next currentId s.keys), [])
  | .next currentId [] => (s, some (.storeId currentId), [])
  | .next currentId (id :: rest) =>
    match s.clientFinder id with
    | none => (s, some (.next currentId rest), [])
    | some target => (s, some (.tryAccept currentId target .guard rest), [])
  | .tryAccept currentId target pc rest =>
    let r := (s.heap target).tryAcceptStep errorCode pc
    let pc := match r.2.1 with
      | some pc => PreparePc.tryAccept currentId target pc rest
      | none => .next currentId rest
    (s.assign target r.1, some pc, posted target r.2.2)
  | .storeId currentId => ({ s with accumulatedClientId := currentId }, some .loadMax, [])
  | .loadMax => (s, some (.storeMax s.currentClientMax), [])
  | .storeMax currentMax => ({ s with currentClientMax := currentMax + count }, none, [])

/-- Where a call of `Accept` is. -/
inductive AcceptPc
  | finder (clientID : ℤ)
  | feedBack (target : ℕ)
  | ready (target : ℕ) (pc : ReceiveReadyPc)
  | loadCount
  | storeCount (currentCount : ℤ)
  | loadMax
  | isEmpty (currentMax : ℤ)
  | prepare (pc : PreparePc)

def acceptStep (s : EchoServer) (errorCode : ℤ) :
    AcceptPc → EchoServer × Option AcceptPc × List Posted
  | .finder clientID => (s, (s.clientFinder clientID).map .feedBack, [])
  | .feedBack target =>
    -- `FeedBack_Accept(true)`: `mIsConnet` is set before the receive is armed
    (s.assign target ((s.heap target).setConnet true), some (.ready target .guard), [])
  | .ready target pc =>
    let r := (s.heap target).receiveReadyStep pc
    let pc := match r.2.1 with
      | some pc => AcceptPc.ready target pc
      | none => .loadCount
    (s.assign target r.1, some pc, posted target r.2.2)
  | .loadCount => (s, some (.storeCount s.currentClientCount), [])
  | .storeCount currentCount =>
    ({ s with currentClientCount := currentCount + 1 }, some .loadMax, [])
  | .loadMax => (s, some (.isEmpty s.currentClientMax), [])
  | .isEmpty currentMax =>
    -- the count is read here, after a disconnect may have run
    if currentMax - s.currentClientCount ≤ 0 then (s, some (.prepare .loadId), [])
    else (s, none, [])
  | .prepare pc =>
    let r := s.prepareStep clientIncrease errorCode pc
    (r.1, r.2.1.map .prepare, r.2.2)

/-- Where a call of `Receive` is. -/
inductive ReceivePc
  | finder (packet : Packet)
  | gather (target : ℕ) (packet : Packet)
  | ready (target : ℕ) (pc : ReceiveReadyPc)

def receiveStep (s : EchoServer) (_ : ℤ) : ReceivePc → EchoServer × Option ReceivePc × List Posted
  | .finder packet =>
    (s, (s.clientFinder packet.clientID).map fun target => .gather target packet, [])
  | .gather target packet =>
    let r := (s.heap target).gather packet.dataSize (packet.buffer.getD [])
    (s.assign target r.1, some (.ready target .guard), posted target r.2)
  | .ready target pc =>
    let r := (s.heap target).receiveReadyStep pc
    (s.assign target r.1, r.2.1.map (.ready target), posted target r.2.2)

/-- Where a call of `Send` is. -/
inductive SendPc
  | finder (packet : Packet)
  | request (target : ℕ) (packet : Packet)

def sendStep (s : EchoServer) (_ : ℤ) : SendPc → EchoServer × Option SendPc × List Posted
  | .finder packet =>
    (s, (s.clientFinder packet.clientID).map fun target => .request target packet, [])
  | .request target packet =>
    let r := (s.heap target).sendRequest packet.dataSize packet.bufferPtr
    (s.assign target r.1, none, posted target r.2.1)

/-- Where a call of `Disconnect` is. -/
inductive DisconnectPc
  | finder (clientID : ℤ)
  | loadCount (target : ℕ)
  | storeCount (target : ℕ) (currentCount : ℤ)
  | tryAccept (target : ℕ) (pc : TryAcceptPc)

def disconnectStep (s : EchoServer) (errorCode : ℤ) :
    DisconnectPc → EchoServer × Option DisconnectPc × List Posted
  | .finder clientID => (s, (s.clientFinder clientID).map .loadCount, [])
  | .loadCount target => (s, some (.storeCount target s.currentClientCount), [])
  | .storeCount target currentCount =>
    -- `mIsConnet` of a connected client stays set, so its `TryAccept` stops at the guard
    ({ s with currentClientCount := currentCount - 1 }, some (.tryAccept target .guard), [])
  | .tryAccept target pc =>
    let r := (s.heap target).tryAcceptStep errorCode pc
    (s.assign target r.1, r.2.1.map (.tryAccept target), posted target r.2.2)

theorem prepareStep_count (count : ℕ) (s : EchoServer) (errorCode : ℤ) (pc : PreparePc) :
    (s.prepareStep count errorCode pc).1.currentClientCount = s.currentClientCount ∧
      ∀ id ∈ s.keys, id ∈ (s.prepareStep count errorCode pc).1.keys := by
  cases pc with
  | create currentId limit =>
    simp only [prepareStep]
    split_ifs
    · exact ⟨rfl, fun id h => mem_keys_insertOrAssign _ _ _ h⟩
    · exact ⟨rfl, fun _ h => h⟩
  | next currentId rest =>
    cases rest with
    | nil => exact ⟨rfl, fun _ h => h⟩
    | cons id rest =>
      simp only [prepareStep]
      split <;> exact ⟨rfl, fun _ h => h⟩
  | loadId | tryAccept | storeId | loadMax | storeMax => exact ⟨rfl, fun _ h => h⟩

/-- A thread alone with the server; each action is what `getsockopt` would find. -/
def alone {Pc : Type} (step : EchoServer → ℤ → Pc → EchoServer × Option Pc × List Posted) :
    Machine (EchoServer × Option Pc) ℤ Posted where
  step s errorCode := s.2.map fun pc =>
    let r := step s.1 errorCode pc
    ((r.1, r.2.1), r.2.2)

/-- Some answers of `getsockopt` take the thread from one place to another. -/
def Alone {Pc : Type} (step : EchoServer → ℤ → Pc → EchoServer × Option Pc × List Posted)
    (s : EchoServer) (pc : Option Pc) (s' : EchoServer) (pc' : Option Pc) (out : List Posted) :
    Prop :=
  ∃ answers, (alone step).run (s, pc) answers = some ((s', pc'), out)

variable {Pc : Type} {step : EchoServer → ℤ → Pc → EchoServer × Option Pc × List Posted}
  {s s₁ s' : EchoServer} {pc : Pc} {pc₀ pc₁ pc' : Option Pc} {out out' : List Posted}

theorem Alone.trans (h : Alone step s pc₀ s₁ pc₁ out) (h' : Alone step s₁ pc₁ s' pc' out') :
    Alone step s pc₀ s' pc' (out ++ out') := by
  obtain ⟨answers, hr⟩ := h
  obtain ⟨answers', hr'⟩ := h'
  exact ⟨answers ++ answers', (Machine.run_append _).mpr ⟨_, _, _, hr, hr', rfl⟩⟩

theorem Alone.one (step : EchoServer → ℤ → Pc → EchoServer × Option Pc × List Posted)
    (s : EchoServer) (pc : Pc) (errorCode : ℤ) : Alone step s (some pc) (step s errorCode pc).1
    (step s errorCode pc).2.1 (step s errorCode pc).2.2 :=
  ⟨[errorCode], by simp [alone, Machine.run]⟩

@[simp] theorem assign_self (s : EchoServer) (target : ℕ) :
    s.assign target (s.heap target) = s := by
  simp [assign]

@[simp] theorem assign_assign (s : EchoServer) (target : ℕ) (c c' : ClientDataSet) :
    (s.assign target c).assign target c' = s.assign target c' := by
  simp [assign]

@[simp] theorem assign_heap (s : EchoServer) (target : ℕ) (c : ClientDataSet) :
    (s.assign target c).heap target = c := by
  simp [assign]

variable {target count : ℕ} {currentId : ℤ} {rest : List ℤ} {packet : Packet}

theorem tryAccept_alone (s : EchoServer) (target : ℕ) (wrap : TryAcceptPc → Pc)
    (after : Option Pc)
    (hw : ∀ s errorCode pc, step s errorCode (wrap pc) =
      (s.assign target ((s.heap target).tryAcceptStep errorCode pc).1,
        (((s.heap target).tryAcceptStep errorCode pc).2.1).elim after (some ∘ wrap),
        posted target ((s.heap target).tryAcceptStep errorCode pc).2.2)) (errorCode : ℤ) :
    Alone step s (some (wrap .guard)) (s.assign target ((s.heap target).tryAccept errorCode).1)
      after (posted target ((s.heap target).tryAccept errorCode).2.1) := by
  have h₁ := Alone.one step s (wrap .guard) errorCode
  rw [hw] at h₁
  by_cases hc : (s.heap target).mIsConnet = true
  · simpa [tryAcceptStep, tryAccept, hc] using h₁
  by_cases he : errorCode = 0
  · have h₂ (c : ClientDataSet) :=
      Alone.one step (s.assign target c) (wrap .fill) 0
    have h₃ (c : ClientDataSet) :=
      Alone.one step (s.assign target c) (wrap .post) 0
    simp only [hw, tryAcceptStep, assign_heap, assign_assign] at h₁ h₂ h₃
    simp only [hc, he] at h₁
    have h := (h₁.trans (h₂ _)).trans (h₃ _)
    simpa [tryAccept, hc, he] using h
  · simpa [tryAcceptStep, tryAccept, hc, he] using h₁

theorem receiveReady_alone (s : EchoServer) (target : ℕ) (wrap : ReceiveReadyPc → Pc)
    (after : Option Pc)
    (hw : ∀ s errorCode pc, step s errorCode (wrap pc) =
      (s.assign target ((s.heap target).receiveReadyStep pc).1,
        (((s.heap target).receiveReadyStep pc).2.1).elim after (some ∘ wrap),
        posted target ((s.heap target).receiveReadyStep pc).2.2)) :
    Alone step s (some (wrap .guard)) (s.assign target (s.heap target).receiveReady.1)
      after (posted target (s.heap target).receiveReady.2.1) := by
  have h₁ := Alone.one step s (wrap .guard) 0
  rw [hw] at h₁
  by_cases hc : (s.heap target).mIsConnet = true
  · have h₂ (c : ClientDataSet) :=
      Alone.one step (s.assign target c) (wrap .fill) 0
    have h₃ (c : ClientDataSet) :=
      Alone.one step (s.assign target c) (wrap .post) 0
    simp only [hw, receiveReadyStep, assign_heap, assign_assign] at h₁ h₂ h₃
    simp only [hc] at h₁
    have h := (h₁.trans (h₂ _)).trans (h₃ _)
    simpa [receiveReady, hc] using h
  · simpa [receiveReadyStep, receiveReady, hc] using h₁

theorem prepareStep_tryAccept (count : ℕ) (s : EchoServer) (errorCode : ℤ) (pc : TryAcceptPc) :
    s.prepareStep count errorCode (.tryAccept currentId target pc rest) =
      (s.assign target ((s.heap target).tryAcceptStep errorCode pc).1,
        (((s.heap target).tryAcceptStep errorCode pc).2.1).elim (some (.next currentId rest))
          (some ∘ fun pc => .tryAccept currentId target pc rest),
        posted target ((s.heap target).tryAcceptStep errorCode pc).2.2) := by
  simp only [prepareStep]
  cases ((s.heap target).tryAcceptStep errorCode pc).2.1 <;> rfl

theorem tryAcceptAll_alone (count : ℕ) (currentId : ℤ) (errorCode : ℤ → ℤ) (ids : List ℤ)
    (s : EchoServer) :
    Alone (prepareStep count) s (some (.next currentId ids)) (tryAcceptAll errorCode ids s).1
      (some (.storeId currentId)) (tryAcceptAll errorCode ids s).2 := by
  induction ids generalizing s with
  | nil => exact Alone.one _ _ _ 0
  | cons id rest ih =>
    have h₁ := Alone.one (prepareStep count) s (.next currentId (id :: rest)) 0
    cases hf : s.clientFinder id with
    | none =>
      simp only [prepareStep, hf] at h₁
      simp only [tryAcceptAll, hf]
      exact h₁.trans (ih s)
    | some target =>
      simp only [prepareStep, hf] at h₁
      simp only [tryAcceptAll, hf]
      have h₂ := tryAccept_alone s target (fun pc => PreparePc.tryAccept currentId target pc rest)
        (some (PreparePc.next currentId rest)) (prepareStep_tryAccept count) (errorCode id)
      exact (h₁.trans h₂).trans (ih _)

theorem createClients_alone (count k : ℕ) (s : EchoServer) (currentId : ℤ) :
    Alone (prepareStep count) s (some (.create currentId (currentId + k)))
      (createClients k currentId s)
      (some (.next (currentId + k) (createClients k currentId s).keys)) [] := by
  induction k generalizing s currentId with
  | zero =>
    have h₁ := Alone.one (prepareStep count) s
      (.create currentId (currentId + (0 : ℕ))) 0
    simpa [prepareStep, createClients] using h₁
  | succ k ih =>
    have h₁ := Alone.one (prepareStep count) s
      (.create currentId (currentId + (k + 1 : ℕ))) 0
    have hlt : currentId < currentId + (k + 1 : ℕ) := by omega
    have hnext : currentId + (k + 1 : ℕ) = currentId + 1 + k := by omega
    simp only [prepareStep, if_pos hlt] at h₁
    rw [hnext] at h₁ ⊢
    exact h₁.trans (ih (s.createClient currentId) (currentId + 1))

/-- `PrepareSocket` step by step, undisturbed, is the call of it. -/
theorem prepareSocket_alone (errorCode : ℤ → ℤ) (s : EchoServer) :
    Alone (prepareStep count) s (some .loadId) (s.prepareSocket count errorCode).1 none
      (s.prepareSocket count errorCode).2 := by
  have h₁ := Alone.one (prepareStep count) s .loadId 0
  have h₂ := createClients_alone count count s s.accumulatedClientId
  have h₃ := tryAcceptAll_alone count (s.accumulatedClientId + count) errorCode
    (createClients count s.accumulatedClientId s).keys
    (createClients count s.accumulatedClientId s)
  have h := (h₁.trans h₂).trans h₃
  have h₄ := h.trans (Alone.one _ _ _ 0)
  have h₅ := h₄.trans (Alone.one _ _ _ 0)
  have h₆ := h₅.trans (Alone.one _ _ _ 0)
  simpa [prepareStep, prepareSocket] using h₆

theorem Alone.prepare {pc : PreparePc} {after : Option PreparePc}
    (h : Alone (prepareStep clientIncrease) s (some pc) s' after out) :
    Alone acceptStep s (some (.prepare pc)) s' (after.map .prepare) out := by
  obtain ⟨answers, hr⟩ := h
  have key (answers : List ℤ) (s : EchoServer) (pc : Option PreparePc) (out : List Posted)
      (hr : (alone (prepareStep clientIncrease)).run (s, pc) answers = some ((s', after), out)) :
      (alone acceptStep).run (s, pc.map .prepare) answers =
        some ((s', after.map .prepare), out) := by
    induction answers generalizing s pc out with
    | nil =>
      obtain ⟨⟨rfl, rfl⟩, rfl⟩ : (s = s' ∧ pc = after) ∧ [] = out := by simpa using hr
      rfl
    | cons e answers ih =>
      obtain ⟨⟨s₁, pc₁⟩, e₁, e₂, hs, hrest, rfl⟩ := (Machine.run_cons _).mp hr
      cases pc with
      | none => simp [alone] at hs
      | some pc =>
        refine (Machine.run_cons _).mpr ⟨(s₁, pc₁.map .prepare), e₁, e₂, ?_, ih _ _ _ hrest, rfl⟩
        simp only [alone, Option.map_some, Option.some.injEq, Prod.mk.injEq] at hs ⊢
        obtain ⟨⟨rfl, rfl⟩, rfl⟩ := hs
        exact ⟨⟨rfl, rfl⟩, rfl⟩
  exact ⟨answers, key answers s (some pc) out hr⟩

theorem acceptStep_ready (s : EchoServer) (errorCode : ℤ) (pc : ReceiveReadyPc) :
    s.acceptStep errorCode (.ready target pc) =
      (s.assign target ((s.heap target).receiveReadyStep pc).1,
        (((s.heap target).receiveReadyStep pc).2.1).elim (some .loadCount)
          (some ∘ AcceptPc.ready target),
        posted target ((s.heap target).receiveReadyStep pc).2.2) := by
  simp only [acceptStep]
  cases ((s.heap target).receiveReadyStep pc).2.1 <;> rfl

theorem acceptStep_empty {currentMax : ℤ} (errorCode : ℤ)
    (h : currentMax - s.currentClientCount ≤ 0) :
    s.acceptStep errorCode (.isEmpty currentMax) = (s, some (.prepare .loadId), []) := by
  simp only [acceptStep, if_pos h]

theorem acceptStep_free {currentMax : ℤ} (errorCode : ℤ)
    (h : ¬ currentMax - s.currentClientCount ≤ 0) :
    s.acceptStep errorCode (.isEmpty currentMax) = (s, none, []) := by
  simp only [acceptStep, if_neg h]

/-- `Accept` step by step, undisturbed, is the call of it. -/
theorem accept_alone (errorCode : ℤ → ℤ) (s : EchoServer) (packet : Packet) :
    Alone acceptStep s (some (.finder packet.clientID)) (s.accept packet errorCode).1 none
      (s.accept packet errorCode).2 := by
  have h₁ := Alone.one acceptStep s (.finder packet.clientID) 0
  cases hf : s.clientFinder packet.clientID with
  | none => simpa [acceptStep, accept, hf] using h₁
  | some target =>
    simp only [acceptStep, hf, Option.map_some] at h₁
    have h₂ := h₁.trans (Alone.one _ _ _ 0)
    have h₃ := h₂.trans (receiveReady_alone _ target (AcceptPc.ready target)
      (some .loadCount) acceptStep_ready)
    have h₄ := h₃.trans (Alone.one _ _ _ 0)
    have h₅ := h₄.trans (Alone.one _ _ _ 0)
    have h₆ := h₅.trans (Alone.one _ _ _ 0)
    simp only [acceptStep, assign_heap, assign_assign, List.nil_append, List.append_nil] at h₆
    simp only [accept, hf, feedBackAccept, if_true]
    split_ifs with hgrow
    · have h₇ := h₆.trans (Alone.one _ _ _ 0)
      rw [acceptStep_empty _ hgrow, List.append_nil] at h₇
      exact h₇.trans (prepareSocket_alone errorCode _).prepare
    · have h₇ := h₆.trans (Alone.one _ _ _ 0)
      rw [acceptStep_free _ hgrow, List.append_nil] at h₇
      exact h₇

theorem disconnect_alone (errorCode : ℤ → ℤ) (s : EchoServer) (packet : Packet) :
    Alone disconnectStep s (some (.finder packet.clientID)) (s.disconnect packet errorCode).1 none
      (s.disconnect packet errorCode).2 := by
  have h₁ := Alone.one disconnectStep s (.finder packet.clientID) 0
  cases hf : s.clientFinder packet.clientID with
  | none => simpa [disconnectStep, disconnect, hf] using h₁
  | some target =>
    simp only [disconnectStep, hf, Option.map_some] at h₁
    have h₂ := h₁.trans (Alone.one _ _ _ 0)
    have h₃ := h₂.trans (Alone.one _ _ _ 0)
    have h := h₃.trans (tryAccept_alone _ target (DisconnectPc.tryAccept target) none
      (fun s errorCode pc => by
        simp only [disconnectStep]
        cases ((s.heap target).tryAcceptStep errorCode pc).2.1 <;> rfl) (errorCode packet.clientID))
    simpa [disconnectStep, disconnect, hf] using h

theorem send_alone (s : EchoServer) (packet : Packet) :
    Alone sendStep s (some (.finder packet)) (s.send packet).1 none (s.send packet).2 := by
  have h₁ := Alone.one sendStep s (.finder packet) 0
  cases hf : s.clientFinder packet.clientID with
  | none => simpa [sendStep, send, hf] using h₁
  | some target =>
    simp only [sendStep, hf, Option.map_some] at h₁
    have h := h₁.trans (Alone.one _ _ _ 0)
    simpa [sendStep, send, hf] using h

theorem receive_alone (s : EchoServer) (packet : Packet)
    (hr : ∀ target, (s.heap target).mReceiveDataQueue.InRange) :
    Alone receiveStep s (some (.finder packet)) (s.receive packet).1 none
      (s.receive packet).2 := by
  have h₁ := Alone.one receiveStep s (.finder packet) 0
  cases hf : s.clientFinder packet.clientID with
  | none => simpa [receiveStep, receive, hf] using h₁
  | some target =>
    simp only [receiveStep, hf, Option.map_some] at h₁
    have h₂ := h₁.trans (Alone.one _ _ _ 0)
    have h := h₂.trans (receiveReady_alone _ target (ReceivePc.ready target) none
      (fun s errorCode pc => by
        simp only [receiveStep]
        cases ((s.heap target).receiveReadyStep pc).2.1 <;> rfl))
    simpa [receiveStep, receive, hf, feedBackReceive_eq (hr target)] using h

end EchoServer

end EchoIocp
