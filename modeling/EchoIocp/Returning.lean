import EchoIocp.Routing

namespace EchoIocp

open LockFreeCircleQueue ClientDataSet EchoServer

namespace ClientDataSet

def TryAcceptPc.stepsLeft : TryAcceptPc → ℕ
  | .guard => 3
  | .fill => 2
  | .post => 1

def ReceiveReadyPc.stepsLeft : ReceiveReadyPc → ℕ
  | .guard => 3
  | .fill => 2
  | .post => 1

variable {c : ClientDataSet} {errorCode : ℤ}

theorem TryAcceptPc.stepsLeft_pos (pc : TryAcceptPc) : 0 < pc.stepsLeft := by
  cases pc <;> exact Nat.succ_pos _

theorem ReceiveReadyPc.stepsLeft_pos (pc : ReceiveReadyPc) : 0 < pc.stepsLeft := by
  cases pc <;> exact Nat.succ_pos _

theorem tryAcceptStep_stepsLeft {pc pc' : TryAcceptPc}
    (h : (c.tryAcceptStep errorCode pc).2.1 = some pc') : pc'.stepsLeft < pc.stepsLeft := by
  cases pc with
  | guard =>
    simp only [tryAcceptStep] at h
    split_ifs at h
    obtain rfl := Option.some.inj h
    decide
  | fill =>
    obtain rfl := Option.some.inj h
    decide
  | post => cases h

theorem receiveReadyStep_stepsLeft {pc pc' : ReceiveReadyPc}
    (h : (c.receiveReadyStep pc).2.1 = some pc') : pc'.stepsLeft < pc.stepsLeft := by
  cases pc with
  | guard =>
    simp only [receiveReadyStep] at h
    split_ifs at h
    obtain rfl := Option.some.inj h
    decide
  | fill =>
    obtain rfl := Option.some.inj h
    decide
  | post => cases h

end ClientDataSet

namespace EchoServer

variable (s : EchoServer) {errorCode : ℤ}

/-- The loops of `PrepareSocket` are left after a round for each client to add, and one for each
key of the map. -/
def prepareStepsLeft : PreparePc → ℕ
  | .loadId => 5 * clientIncrease + 6 + 4 * s.keys.length
  | .create currentId limit => 5 * (limit - currentId).toNat + 5 + 4 * s.keys.length
  | .next _ rest => 4 + 4 * rest.length
  | .tryAccept _ _ pc rest => pc.stepsLeft + 4 + 4 * rest.length
  | .storeId _ => 3
  | .loadMax => 2
  | .storeMax _ => 1

def acceptStepsLeft : AcceptPc → ℕ
  | .finder _ => 20 + 4 * s.keys.length
  | .feedBack _ => 19 + 4 * s.keys.length
  | .ready _ pc => pc.stepsLeft + 15 + 4 * s.keys.length
  | .loadCount => 15 + 4 * s.keys.length
  | .storeCount _ => 14 + 4 * s.keys.length
  | .loadMax => 13 + 4 * s.keys.length
  | .isEmpty _ => 12 + 4 * s.keys.length
  | .prepare pc => s.prepareStepsLeft pc

def ReceivePc.stepsLeft : ReceivePc → ℕ
  | .finder _ => 5
  | .gather _ _ => 4
  | .ready _ pc => pc.stepsLeft

def SendPc.stepsLeft : SendPc → ℕ
  | .finder _ => 2
  | .request _ _ => 1

def DisconnectPc.stepsLeft : DisconnectPc → ℕ
  | .finder _ => 6
  | .loadCount _ => 5
  | .storeCount _ _ => 4
  | .tryAccept _ pc => pc.stepsLeft

variable {s}

theorem acceptStepsLeft_pos (pc : AcceptPc) : 0 < s.acceptStepsLeft pc := by
  cases pc with
  | prepare pc =>
    cases pc <;> simp only [acceptStepsLeft, prepareStepsLeft] <;> omega
  | finder | feedBack | ready | loadCount | storeCount | loadMax | isEmpty =>
    simp only [acceptStepsLeft]
    omega

theorem ReceivePc.stepsLeft_pos (pc : ReceivePc) : 0 < pc.stepsLeft := by
  cases pc with
  | ready target pc => exact pc.stepsLeft_pos
  | finder | gather => exact Nat.succ_pos _

theorem SendPc.stepsLeft_pos (pc : SendPc) : 0 < pc.stepsLeft := by
  cases pc <;> exact Nat.succ_pos _

theorem DisconnectPc.stepsLeft_pos (pc : DisconnectPc) : 0 < pc.stepsLeft := by
  cases pc with
  | tryAccept target pc => exact pc.stepsLeft_pos
  | finder | loadCount | storeCount => exact Nat.succ_pos _

theorem length_insertOrAssign_le (key : ℤ) (value : ℕ) (l : List (ℤ × ℕ)) :
    (insertOrAssign key value l).length ≤ l.length + 1 := by
  induction l with
  | nil => exact le_rfl
  | cons entry rest ih =>
    unfold insertOrAssign
    split_ifs
    · exact le_rfl
    · exact Nat.le_succ _
    · exact Nat.succ_le_succ ih

theorem length_keys_createClient (currentId : ℤ) :
    (s.createClient currentId).keys.length ≤ s.keys.length + 1 := by
  unfold keys createClient
  rw [List.length_map, List.length_map]
  exact length_insertOrAssign_le _ _ _

theorem prepareStep_stepsLeft {pc pc' : PreparePc}
    (h : (s.prepareStep clientIncrease errorCode pc).2.1 = some pc') :
    (s.prepareStep clientIncrease errorCode pc).1.prepareStepsLeft pc' <
      s.prepareStepsLeft pc := by
  cases pc with
  | loadId =>
    obtain rfl := Option.some.inj h
    have hround : (s.accumulatedClientId + (clientIncrease : ℤ) - s.accumulatedClientId).toNat =
        clientIncrease := by
      omega
    simp only [prepareStep, prepareStepsLeft, hround]
    omega
  | create currentId limit =>
    by_cases hlt : currentId < limit
    · have hkeys := length_keys_createClient (s := s) currentId
      simp only [prepareStep, if_pos hlt, Option.some.injEq] at h ⊢
      subst h
      simp only [prepareStepsLeft]
      omega
    · simp only [prepareStep, if_neg hlt, Option.some.injEq] at h ⊢
      subst h
      simp only [prepareStepsLeft]
      omega
  | next currentId rest =>
    cases rest with
    | nil =>
      obtain rfl := Option.some.inj h
      simp [prepareStepsLeft]
    | cons id rest =>
      cases hf : s.clientFinder id with
      | none =>
        simp only [prepareStep, hf, Option.some.injEq] at h ⊢
        subst h
        simp [prepareStepsLeft]
      | some target =>
        simp only [prepareStep, hf, Option.some.injEq] at h ⊢
        subst h
        simp only [prepareStepsLeft, TryAcceptPc.stepsLeft, List.length_cons]
        omega
  | tryAccept currentId target pc rest =>
    obtain rfl := Option.some.inj h
    cases hpc : ((s.heap target).tryAcceptStep errorCode pc).2.1 with
    | some pc' =>
      have := tryAcceptStep_stepsLeft hpc
      simp only [prepareStepsLeft]
      omega
    | none =>
      have := pc.stepsLeft_pos
      simp only [prepareStepsLeft]
      omega
  | storeId | loadMax =>
    obtain rfl := Option.some.inj h
    exact Nat.lt_succ_self _
  | storeMax => cases h

theorem acceptStep_stepsLeft {pc pc' : AcceptPc} (h : (s.acceptStep errorCode pc).2.1 = some pc') :
    (s.acceptStep errorCode pc).1.acceptStepsLeft pc' < s.acceptStepsLeft pc := by
  cases pc with
  | finder clientID =>
    obtain ⟨target, -, rfl⟩ := Option.map_eq_some_iff.mp h
    simp [acceptStep, acceptStepsLeft]
  | feedBack target =>
    obtain rfl := Option.some.inj h
    simp [acceptStep, acceptStepsLeft, ReceiveReadyPc.stepsLeft, keys, assign]
  | ready target pc =>
    obtain rfl := Option.some.inj h
    cases hpc : ((s.heap target).receiveReadyStep pc).2.1 with
    | some pc' =>
      have := receiveReadyStep_stepsLeft hpc
      simp only [acceptStep, hpc, acceptStepsLeft, keys, assign]
      omega
    | none =>
      have := pc.stepsLeft_pos
      simp only [acceptStep, hpc, acceptStepsLeft, keys, assign]
      omega
  | loadCount | storeCount | loadMax =>
    obtain rfl := Option.some.inj h
    simp [acceptStep, acceptStepsLeft, keys]
  | isEmpty currentMax =>
    simp only [acceptStep] at h ⊢
    split_ifs at h ⊢
    obtain rfl := Option.some.inj h
    simp [acceptStepsLeft, prepareStepsLeft, clientIncrease]
  | prepare pc =>
    obtain ⟨pc', hpc, rfl⟩ := Option.map_eq_some_iff.mp h
    exact prepareStep_stepsLeft hpc

theorem receiveStep_stepsLeft {pc pc' : ReceivePc}
    (h : (s.receiveStep errorCode pc).2.1 = some pc') : pc'.stepsLeft < pc.stepsLeft := by
  cases pc with
  | finder packet =>
    obtain ⟨target, -, rfl⟩ := Option.map_eq_some_iff.mp h
    exact Nat.lt_succ_self _
  | gather target packet =>
    obtain rfl := Option.some.inj h
    exact Nat.lt_succ_self _
  | ready target pc =>
    obtain ⟨pc', hpc, rfl⟩ := Option.map_eq_some_iff.mp h
    exact receiveReadyStep_stepsLeft hpc

theorem sendStep_stepsLeft {pc pc' : SendPc} (h : (s.sendStep errorCode pc).2.1 = some pc') :
    pc'.stepsLeft < pc.stepsLeft := by
  cases pc with
  | finder packet =>
    obtain ⟨target, -, rfl⟩ := Option.map_eq_some_iff.mp h
    exact Nat.lt_succ_self _
  | request target packet => cases h

theorem disconnectStep_stepsLeft {pc pc' : DisconnectPc}
    (h : (s.disconnectStep errorCode pc).2.1 = some pc') : pc'.stepsLeft < pc.stepsLeft := by
  cases pc with
  | finder clientID =>
    obtain ⟨target, -, rfl⟩ := Option.map_eq_some_iff.mp h
    exact Nat.lt_succ_self _
  | loadCount target =>
    obtain rfl := Option.some.inj h
    exact Nat.lt_succ_self _
  | storeCount target currentCount =>
    obtain rfl := Option.some.inj h
    exact Nat.lt_succ_self _
  | tryAccept target pc =>
    obtain ⟨pc', hpc, rfl⟩ := Option.map_eq_some_iff.mp h
    exact tryAcceptStep_stepsLeft hpc

theorem Numbered.length_keys (h : s.Numbered) : s.keys.length = s.allocated := by
  rw [h.keys_eq, List.length_map, List.length_range]

theorem sendStep_keys (pc : SendPc) : (s.sendStep errorCode pc).1.keys = s.keys := by
  cases pc <;> rfl

theorem receiveStep_keys (pc : ReceivePc) : (s.receiveStep errorCode pc).1.keys = s.keys := by
  cases pc <;> rfl

theorem disconnectStep_keys (pc : DisconnectPc) :
    (s.disconnectStep errorCode pc).1.keys = s.keys := by
  cases pc <;> rfl

theorem acceptStepsLeft_congr {s' : EchoServer} (h : s'.keys = s.keys) (pc : AcceptPc) :
    s'.acceptStepsLeft pc = s.acceptStepsLeft pc := by
  unfold acceptStepsLeft prepareStepsLeft
  rw [h]

end EchoServer

namespace EchoSystem

/-- A step of the worker of a queue, or of the handler it called. -/
def own : QueueName → Act → Bool
  | .acceptQueue, .accept _ _ => true
  | .sendQueue, .send _ => true
  | .receiveQueue, .receive _ => true
  | .disconnectQueue, .disconnect _ _ => true
  | _, _ => false

def handling (s : EchoSystem) : QueueName → Bool
  | .acceptQueue => s.acceptThread.isSome
  | .sendQueue => s.sendThread.isSome
  | .receiveQueue => s.receiveThread.isSome
  | .disconnectQueue => s.disconnectThread.isSome

def stepsLeft (s : EchoSystem) : QueueName → ℕ
  | .acceptQueue => s.acceptThread.elim 0 s.server.acceptStepsLeft
  | .sendQueue => s.sendThread.elim 0 SendPc.stepsLeft
  | .receiveQueue => s.receiveThread.elim 0 ReceivePc.stepsLeft
  | .disconnectQueue => s.disconnectThread.elim 0 DisconnectPc.stepsLeft

/-- The steps that any call of a handler takes. -/
def callSteps (s : EchoSystem) : QueueName → ℕ
  | .acceptQueue => 20 + 4 * s.server.allocated
  | .sendQueue => 2
  | .receiveQueue => 5
  | .disconnectQueue => 6

section elim

variable {Pc : Type} {o o' : Option Pc} {f f' : Pc → ℕ}

theorem elim_pos (hf : ∀ pc, 0 < f pc) (h : o.isSome = true) : 0 < o.elim 0 f := by
  obtain ⟨pc, rfl⟩ := Option.isSome_iff_exists.mp h
  exact hf pc

theorem elim_lt (hpos : 0 < o.elim 0 f)
    (h : ∀ pc pc', o = some pc → o' = some pc' → f' pc' < f pc) : o'.elim 0 f' < o.elim 0 f := by
  cases o with
  | none => exact absurd hpos (Nat.lt_irrefl 0)
  | some pc =>
    cases o' with
    | none => exact hpos
    | some pc' => exact h pc pc' rfl rfl

end elim

variable {s s' : EchoSystem} {a : Act} {out : List Event} {name : QueueName}

theorem stepsLeft_pos (h : s.handling name = true) : 0 < s.stepsLeft name := by
  cases name with
  | acceptQueue => exact elim_pos acceptStepsLeft_pos h
  | sendQueue => exact elim_pos SendPc.stepsLeft_pos h
  | receiveQueue => exact elim_pos ReceivePc.stepsLeft_pos h
  | disconnectQueue => exact elim_pos DisconnectPc.stepsLeft_pos h

theorem own_step (ha : own name a = true) (hpos : 0 < s.stepsLeft name)
    (hs : machine.step s a = some (s', out)) : s'.stepsLeft name < s.stepsLeft name := by
  cases effect_of_step hs with
  | accept errorCode taken pc hpc =>
    cases name <;> cases ha
    apply elim_lt hpos
    intro pc₀ pc' h₀ hpc'
    obtain rfl := Option.some.inj (hpc.symm.trans h₀)
    exact acceptStep_stepsLeft hpc'
  | send taken pc hpc =>
    cases name <;> cases ha
    apply elim_lt hpos
    intro pc₀ pc' h₀ hpc'
    obtain rfl := Option.some.inj (hpc.symm.trans h₀)
    exact sendStep_stepsLeft hpc'
  | receive taken pc hpc =>
    cases name <;> cases ha
    apply elim_lt hpos
    intro pc₀ pc' h₀ hpc'
    obtain rfl := Option.some.inj (hpc.symm.trans h₀)
    exact receiveStep_stepsLeft hpc'
  | disconnect errorCode taken pc hpc =>
    cases name <;> cases ha
    apply elim_lt hpos
    intro pc₀ pc' h₀ hpc'
    obtain rfl := Option.some.inj (hpc.symm.trans h₀)
    exact disconnectStep_stepsLeft hpc'
  | acceptLoop errorCode taken hpc | sendLoop taken hpc | receiveLoop taken hpc
  | disconnectLoop errorCode taken hpc =>
    -- at its loop a worker has no call to bring to an end
    cases name <;> cases ha
    rw [stepsLeft, hpc] at hpos
    exact absurd hpos (Nat.lt_irrefl 0)
  | complete | dequeue | begin | push | request => cases name <;> cases ha

/-- No other step puts it off. -/
theorem other_step (ha : own name a = false) (hs : machine.step s a = some (s', out)) :
    s'.stepsLeft name = s.stepsLeft name := by
  have hkeys (hk : s'.server.keys = s.server.keys) (ht : s'.acceptThread = s.acceptThread) :
      s'.stepsLeft .acceptQueue = s.stepsLeft .acceptQueue := by
    simp only [stepsLeft, ht, funext (acceptStepsLeft_congr hk)]
  cases effect_of_step hs with
  | complete op result bytes =>
    cases name with
    | acceptQueue =>
      refine hkeys ?_ rfl
      dsimp only
      split_ifs <;> rfl
    | sendQueue | receiveQueue | disconnectQueue => rfl
  | dequeue | begin | push => cases name <;> rfl
  | acceptLoop | accept =>
    cases name with
    | acceptQueue => cases ha
    | sendQueue | receiveQueue | disconnectQueue => rfl
  | sendLoop => cases name <;> first | rfl | cases ha
  | send taken pc =>
    cases name with
    | acceptQueue => exact hkeys (sendStep_keys pc) rfl
    | sendQueue => cases ha
    | receiveQueue | disconnectQueue => rfl
  | receiveLoop => cases name <;> first | rfl | cases ha
  | receive taken pc =>
    cases name with
    | acceptQueue => exact hkeys (receiveStep_keys pc) rfl
    | receiveQueue => cases ha
    | sendQueue | disconnectQueue => rfl
  | disconnectLoop => cases name <;> first | rfl | cases ha
  | disconnect errorCode taken pc =>
    cases name with
    | acceptQueue => exact hkeys (disconnectStep_keys pc) rfl
    | disconnectQueue => cases ha
    | sendQueue | receiveQueue => rfl
  | request => cases name <;> rfl

theorem call_step (hn : s.server.Numbered) (ha : own name a = true)
    (hnone : s.stepsLeft name = 0) (hs : machine.step s a = some (s', out)) :
    s'.stepsLeft name ≤ s'.callSteps name := by
  have hidle (h : s.handling name = true) : False := by
    have := stepsLeft_pos h
    omega
  cases effect_of_step hs with
  | acceptLoop errorCode taken hpc =>
    cases name <;> cases ha
    rw [callSteps, ← hn.length_keys]
    simp only [stepsLeft]
    cases called (s.port.workerStep .acceptQueue).2 with
    | none => exact Nat.zero_le _
    | some packet => exact le_rfl
  | sendLoop taken hpc =>
    cases name <;> cases ha
    simp only [stepsLeft, callSteps]
    cases called (s.port.workerStep .sendQueue).2 with
    | none => exact Nat.zero_le _
    | some packet => exact le_rfl
  | receiveLoop taken hpc =>
    cases name <;> cases ha
    simp only [stepsLeft, callSteps]
    cases called (s.port.workerStep .receiveQueue).2 with
    | none => exact Nat.zero_le _
    | some packet => exact le_rfl
  | disconnectLoop errorCode taken hpc =>
    cases name <;> cases ha
    simp only [stepsLeft, callSteps]
    cases called (s.port.workerStep .disconnectQueue).2 with
    | none => exact Nat.zero_le _
    | some packet => exact le_rfl
  | accept errorCode taken pc hpc | send taken pc hpc | receive taken pc hpc
  | disconnect errorCode taken pc hpc =>
    cases name <;> cases ha
    exact (hidle (by rw [handling, hpc]; rfl)).elim
  | complete | dequeue | begin | push | request => cases name <;> cases ha

theorem callSteps_mono (h : s.server.allocated ≤ s'.server.allocated) :
    s.callSteps name ≤ s'.callSteps name := by
  cases name with
  | acceptQueue => exact Nat.add_le_add_left (Nat.mul_le_mul_left 4 h) 20
  | sendQueue | receiveQueue | disconnectQueue => exact le_rfl

theorem stepsLeft_step (hroute : s.Routable) (h : ∀ name, s.stepsLeft name ≤ s.callSteps name)
    (hs : machine.step s a = some (s', out)) : ∀ name, s'.stepsLeft name ≤ s'.callSteps name := by
  intro name
  have hmono : s.callSteps name ≤ s'.callSteps name := callSteps_mono (hroute.grows hs).allocated
  have hname := h name
  cases ha : own name a with
  | false =>
    rw [other_step ha hs]
    exact hname.trans hmono
  | true =>
    by_cases hzero : s.stepsLeft name = 0
    · exact call_step hroute.numbered ha hzero hs
    · have hless := own_step ha (Nat.pos_of_ne_zero hzero) hs
      omega

theorem start_stepsLeft (memory : ℕ → ClientDataSet) (buffers : QueueName → ℕ → Packet) (n : ℕ)
    (errorCode : ℤ → ℤ) (taken : ℕ → Bool) (name : QueueName) :
    (start memory buffers n errorCode taken).stepsLeft name ≤
      (start memory buffers n errorCode taken).callSteps name := by
  cases name <;> exact Nat.zero_le _

/-- The accept of the only slot adds a second one and returns. -/
example : (machine.run
    (start (fun _ => default) (fun _ _ => default) 1 (fun _ => 0) fun _ => true)
    (oneAccept ++ List.replicate 16 (.accept 0 true))).map
      (fun r => (r.1.handling .acceptQueue, r.1.server.allocated)) = some (false, 2) := by
  decide +kernel

end EchoSystem

end EchoIocp
