import EchoIocp.Returning

namespace EchoIocp

open LockFreeCircleQueue ClientDataSet EchoServer EchoSystem

namespace LockFreeCircleQueue

variable {T : Type*}

/-- The steps of a worker loop up to the next callback, with an element there to hand over. -/
def turnsLeft (q : LockFreeCircleQueue T) : WorkerPc T → ℕ
  | .front (.read _) => 1
  | .front .loadOutput => 2
  -- an `inputIndex` loaded too early shows the queue as empty once more
  | .empty (.loadOutput input) => if input = q.outputIndex then 5 else 3
  | .empty .loadInput => 4
  | .pop (.storeOutput _ _) => 5
  | .pop (.read _) => 6
  | .pop (.loadInput _) => 7
  | .pop .loadOutput => 8
  | .calling _ => 9

variable {q q' : LockFreeCircleQueue T} {p : Option (PushPc T)} {pc : PushPc T} {c : WorkerPc T}

theorem turnsLeft_pos (q : LockFreeCircleQueue T) (c : WorkerPc T) : 0 < q.turnsLeft c := by
  unfold turnsLeft
  split <;> first | omega | (split_ifs <;> omega)

theorem turnsLeft_le (q : LockFreeCircleQueue T) (c : WorkerPc T) : q.turnsLeft c ≤ 9 := by
  unfold turnsLeft
  split <;> first | omega | (split_ifs <;> omega)

theorem turnsLeft_congr (h : q'.outputIndex = q.outputIndex) (c : WorkerPc T) :
    q'.turnsLeft c = q.turnsLeft c := by
  unfold turnsLeft
  rw [h]

theorem pushStep_outputIndex (q : LockFreeCircleQueue T) (pc : PushPc T) :
    (q.pushStep pc).1.outputIndex = q.outputIndex := by
  cases pc with
  | loadOutput data currentInputIndex =>
    simp only [pushStep]
    split_ifs <;> rfl
  | loadInput | write | storeInput => rfl

/-- A push takes nothing from the elements that wait. -/
theorem pushStep_waiting (h : q.Shared (some pc) c) :
    q.unhanded c <+: (q.pushStep pc).1.unhanded c := by
  rcases pushStep_cases h with ⟨pc', -, -, -, hcont⟩ | ⟨hr, -⟩ | ⟨-, -, hcont⟩
  · unfold unhanded
    rw [hcont]
  · rw [hr]
  · rw [unhanded_push h hcont]
    exact List.prefix_append _ _

/-- While elements wait, a step of the worker brings the next callback nearer or makes it. -/
theorem workerStep_turns [Inhabited T] (h : q.Shared p c) (hw : q.unhanded c ≠ []) :
    (∃ q' c' e, q.workerStep true c = (q', c', e) ∧ (∀ d, e ≠ some (.fronted d)) ∧
      q'.unhanded c' = q.unhanded c ∧ q'.turnsLeft c' < q.turnsLeft c) ∨
    ∃ d, q.workerStep true c = (q, .calling d, some (.fronted d)) ∧
      q.unhanded c = d :: q.unhanded (.calling d) := by
  obtain ⟨hr, -, hc⟩ := h
  have hnone : ∀ d : T, (none : Option (WorkerEvent T)) ≠ some (.fronted d) := fun d => by simp
  match c, hc with
  | .empty .loadInput, hc =>
    left
    have hne : q.inputIndex ≠ q.outputIndex := fun he => hw ((contents_eq_nil hr).mpr he.symm)
    refine ⟨q, .empty (.loadOutput q.inputIndex), none, rfl, hnone, rfl, ?_⟩
    rw [turnsLeft, if_neg hne]
    exact Nat.lt_succ_self _
  | .empty (.loadOutput input), hc =>
    left
    by_cases he : input = q.outputIndex
    · refine ⟨q, .empty .loadInput, none, by simp [workerStep, emptyStep, he], hnone, rfl, ?_⟩
      simp only [turnsLeft, if_pos he]
      exact Nat.lt_succ_self _
    · have hb : (input == q.outputIndex) = false := beq_false_of_ne he
      refine ⟨q, .front .loadOutput, none, by simp [workerStep, emptyStep, hb], hnone, rfl, ?_⟩
      simp only [turnsLeft, if_neg he]
      exact Nat.lt_succ_self _
  | .front .loadOutput, hc =>
    exact .inl ⟨q, .front (.read q.outputIndex), none, rfl, hnone, rfl, Nat.lt_succ_self _⟩
  | .front (.read cur), hc =>
    right
    obtain ⟨hn, rfl⟩ := hc
    exact ⟨_, rfl, contents_of_nonempty hr hn⟩
  | .calling d, hc =>
    exact .inl ⟨q, .pop .loadOutput, none, rfl, hnone, rfl, Nat.lt_succ_self _⟩
  | .pop .loadOutput, hc =>
    exact .inl ⟨q, .pop (.loadInput q.outputIndex), none, rfl, hnone, rfl, Nat.lt_succ_self _⟩
  | .pop (.loadInput cur), hc =>
    left
    obtain ⟨hn, rfl⟩ := hc
    have hne : q.outputIndex ≠ q.inputIndex := hn
    exact ⟨q, .pop (.read q.outputIndex), none, by simp [workerStep, popStep, hne], hnone, rfl,
      Nat.lt_succ_self _⟩
  | .pop (.read cur), hc =>
    exact .inl ⟨q, .pop (.storeOutput cur (q.buffer cur)), none, rfl, hnone, rfl,
      Nat.lt_succ_self _⟩
  | .pop (.storeOutput cur data), hc =>
    left
    obtain ⟨hn, rfl, rfl⟩ := hc
    refine ⟨_, .empty .loadInput, some (.popped _), rfl, fun d => by simp, ?_,
      Nat.lt_succ_self _⟩
    show _ = q.contents.tail
    rw [contents_storeOutput hr hn]
    rfl

end LockFreeCircleQueue

namespace IOCompletionPort

/-- The packets of a queue that no callback has been given. -/
def waiting (port : IOCompletionPort) (name : QueueName) : List Packet :=
  (port.queues name).unhanded (port.workers name)

def turnsLeft (port : IOCompletionPort) (name : QueueName) : ℕ :=
  (port.queues name).turnsLeft (port.workers name)

variable {port port' : IOCompletionPort} {name other : QueueName}

theorem processStep_waiting {e : Option Pushed} (h : port.Shared)
    (hs : port.processStep = some (port', e)) (other : QueueName) :
    port.waiting other <+: port'.waiting other ∧ port'.turnsLeft other = port.turnsLeft other := by
  simp only [processStep, Option.map_eq_some_iff] at hs
  obtain ⟨⟨name, pc⟩, hp, hs⟩ := hs
  have hq := h name
  rw [pushing_self hp] at hq
  have hport : port'.queues = Function.update port.queues name ((port.queues name).pushStep pc).1 ∧
      port'.workers = port.workers := by
    split at hs
    all_goals
      obtain ⟨rfl, -⟩ := Prod.mk.inj hs
      exact ⟨rfl, rfl⟩
  unfold waiting turnsLeft
  rw [hport.1, hport.2]
  by_cases hn : name = other
  · subst hn
    rw [Function.update_self]
    exact ⟨pushStep_waiting hq, turnsLeft_congr (pushStep_outputIndex _ _) _⟩
  · rw [Function.update_of_ne (Ne.symm hn)]
    exact ⟨List.prefix_rfl, rfl⟩

theorem workerStep_elsewhere (hn : name ≠ other) :
    (port.workerStep name).1.waiting other = port.waiting other ∧
      (port.workerStep name).1.turnsLeft other = port.turnsLeft other := by
  unfold waiting turnsLeft workerStep
  dsimp only
  rw [Function.update_of_ne (Ne.symm hn), Function.update_of_ne (Ne.symm hn)]
  exact ⟨rfl, rfl⟩

theorem workerStep_turns (h : port.Shared) (hset : port.callbackSet = true)
    (hw : port.waiting name ≠ []) :
    (called (port.workerStep name).2 = none ∧
      (port.workerStep name).1.waiting name = port.waiting name ∧
      (port.workerStep name).1.turnsLeft name < port.turnsLeft name) ∨
    ∃ packet, called (port.workerStep name).2 = some packet ∧
      port.waiting name = packet :: (port.workerStep name).1.waiting name := by
  unfold waiting turnsLeft workerStep
  dsimp only
  rw [hset, Function.update_self, Function.update_self]
  rcases LockFreeCircleQueue.workerStep_turns (h name) hw with
    ⟨q', c', e, hr, hno, hsame, hless⟩ | ⟨packet, hr, hcons⟩
  · rw [hr]
    refine .inl ⟨?_, hsame, hless⟩
    cases e with
    | none => rfl
    | some e =>
      cases e with
      | fronted d => exact absurd rfl (hno d)
      | popped d => rfl
  · rw [hr]
    exact .inr ⟨packet, rfl, hcons⟩

end IOCompletionPort

namespace EchoSystem

/-- The packet with which a step of the worker of a queue calls its callback. -/
def handsOver (name : QueueName) (s : EchoSystem) (a : Act) : List Packet :=
  if own name a = true ∧ s.handling name = false then
    (called (s.port.workerStep name).2).toList
  else []

/-- The steps of a worker up to its next callback, the call under way included. -/
def turnsLeft (s : EchoSystem) (name : QueueName) : ℕ := s.stepsLeft name + s.port.turnsLeft name

variable {s s' : EchoSystem} {a : Act} {out : List Event} {name : QueueName}

theorem callbackSet_step (hs : machine.step s a = some (s', out)) :
    s'.port.callbackSet = s.port.callbackSet := by
  cases effect_of_step hs with
  | push port' e hin hstep =>
    simp only [IOCompletionPort.processStep, Option.map_eq_some_iff] at hstep
    obtain ⟨⟨name, pc⟩, -, hstep⟩ := hstep
    split at hstep
    all_goals
      obtain ⟨rfl, -⟩ := Prod.mk.inj hstep
      rfl
  | complete | dequeue | begin | acceptLoop | accept | sendLoop | send | receiveLoop | receive
  | disconnectLoop | disconnect | request => rfl

theorem stepsLeft_eq_zero (h : s.handling name = false) : s.stepsLeft name = 0 := by
  cases name <;>
    simp only [handling, Option.isSome_eq_false_iff, Option.isNone_iff_eq_none] at h <;>
    simp only [stepsLeft, h, Option.elim_none]

theorem other_turn (hshared : s.port.Shared) (ha : own name a = false)
    (hs : machine.step s a = some (s', out)) :
    handsOver name s a = [] ∧ s.port.waiting name <+: s'.port.waiting name ∧
      s'.turnsLeft name = s.turnsLeft name := by
  have hnone : handsOver name s a = [] := by
    rw [handsOver, ha]
    rfl
  have hsteps := other_step ha hs
  have hsame (hport : s'.port = s.port) : s.port.waiting name <+: s'.port.waiting name ∧
      s'.turnsLeft name = s.turnsLeft name := by
    unfold turnsLeft
    rw [hport, hsteps]
    exact ⟨List.prefix_rfl, rfl⟩
  have hloop (other : QueueName) (hn : other ≠ name)
      (hport : s'.port = (s.port.workerStep other).1) :
      s.port.waiting name <+: s'.port.waiting name ∧ s'.turnsLeft name = s.turnsLeft name := by
    have helse : (s.port.workerStep other).1.waiting name = s.port.waiting name ∧
        (s.port.workerStep other).1.turnsLeft name = s.port.turnsLeft name :=
      IOCompletionPort.workerStep_elsewhere hn
    obtain ⟨hw, ht⟩ := helse
    unfold turnsLeft
    rw [hport, hw, ht, hsteps]
    exact ⟨List.prefix_rfl, rfl⟩
  refine ⟨hnone, ?_⟩
  cases effect_of_step hs with
  | push port' e hin hstep =>
    obtain ⟨hw, ht⟩ := IOCompletionPort.processStep_waiting hshared hstep name
    refine ⟨hw, ?_⟩
    unfold turnsLeft
    rw [hsteps, ht]
  | acceptLoop => exact hloop .acceptQueue (by rintro rfl; cases ha) rfl
  | sendLoop => exact hloop .sendQueue (by rintro rfl; cases ha) rfl
  | receiveLoop => exact hloop .receiveQueue (by rintro rfl; cases ha) rfl
  | disconnectLoop => exact hloop .disconnectQueue (by rintro rfl; cases ha) rfl
  | begin c hin =>
    refine ⟨List.prefix_rfl, ?_⟩
    unfold turnsLeft
    rw [hsteps]
    rfl
  | complete | dequeue | accept | send | receive | disconnect | request => exact hsame rfl

theorem own_handling (ha : own name a = true) (hh : s.handling name = true)
    (hs : machine.step s a = some (s', out)) : s'.port = s.port := by
  cases effect_of_step hs with
  | accept | send | receive | disconnect => rfl
  | acceptLoop errorCode taken hpc | sendLoop taken hpc | receiveLoop taken hpc
  | disconnectLoop errorCode taken hpc =>
    cases name <;> cases ha
    rw [handling, hpc] at hh
    cases hh
  | complete | dequeue | begin | push | request => cases name <;> cases ha

theorem own_loop (ha : own name a = true) (hh : s.handling name = false)
    (hs : machine.step s a = some (s', out)) : s'.port = (s.port.workerStep name).1 ∧
      (called (s.port.workerStep name).2 = none → s'.handling name = false) := by
  cases effect_of_step hs with
  | acceptLoop | sendLoop | receiveLoop | disconnectLoop =>
    cases name <;> cases ha
    refine ⟨rfl, fun hnone => ?_⟩
    simp only [handling, hnone]
    rfl
  | accept errorCode taken pc hpc | send taken pc hpc | receive taken pc hpc
  | disconnect errorCode taken pc hpc =>
    cases name <;> cases ha
    rw [handling, hpc] at hh
    cases hh
  | complete | dequeue | begin | push | request => cases name <;> cases ha

/-- A step of a worker whose queue holds packets brings the next callback nearer or makes it. -/
theorem own_turn (hshared : s.port.Shared) (hset : s.port.callbackSet = true)
    (ha : own name a = true) (hw : s.port.waiting name ≠ [])
    (hs : machine.step s a = some (s', out)) :
    (handsOver name s a = [] ∧ s'.port.waiting name = s.port.waiting name ∧
      s'.turnsLeft name < s.turnsLeft name) ∨
    ∃ packet, handsOver name s a = [packet] ∧
      s.port.waiting name = packet :: s'.port.waiting name := by
  cases hh : s.handling name with
  | true =>
    have hport := own_handling ha hh hs
    have hless := own_step ha (stepsLeft_pos hh) hs
    refine .inl ⟨by simp [handsOver, hh], by rw [hport], ?_⟩
    unfold turnsLeft
    rw [hport]
    omega
  | false =>
    obtain ⟨hport, hidle⟩ := own_loop ha hh hs
    have hzero := stepsLeft_eq_zero hh
    have hhands : handsOver name s a = (called (s.port.workerStep name).2).toList := by
      rw [handsOver, if_pos ⟨ha, hh⟩]
    rw [hhands, hport]
    rcases IOCompletionPort.workerStep_turns hshared hset hw with
      ⟨hnone, hsame, hless⟩ | ⟨packet, hcalled, hcons⟩
    · refine .inl ⟨by rw [hnone]; rfl, hsame, ?_⟩
      have hzero' := stepsLeft_eq_zero (hidle hnone)
      unfold turnsLeft
      rw [hport]
      omega
    · exact .inr ⟨packet, by rw [hcalled]; rfl, hcons⟩

/-- Any call under way is short, and callbacks are set. -/
structure Prompt (s : EchoSystem) : Prop where
  routable : s.Routable
  callbackSet : s.port.callbackSet = true
  short : ∀ name, s.stepsLeft name ≤ s.callSteps name

theorem Prompt.step (h : s.Prompt) (hs : machine.step s a = some (s', out)) : s'.Prompt :=
  ⟨h.routable.step hs, (callbackSet_step hs).trans h.callbackSet,
    stepsLeft_step h.routable h.short hs⟩

theorem Prompt.turnsLeft_le (h : s.Prompt) (name : QueueName) :
    s.turnsLeft name ≤ s.callSteps name + 9 :=
  Nat.add_le_add (h.short name) (LockFreeCircleQueue.turnsLeft_le _ _)

theorem turnsLeft_pos (s : EchoSystem) (name : QueueName) : 0 < s.turnsLeft name :=
  Nat.lt_of_lt_of_le (LockFreeCircleQueue.turnsLeft_pos _ _) (Nat.le_add_left _ _)

/-- The packets that wait are handed over one by one, each within the steps of one turn. -/
theorem Prompt.served {as : List Act} {ps : List Packet} {turn k : ℕ} (h : s.Prompt)
    (hr : (machine.observing (handsOver name)).run s as = some (s', ps))
    (hturn : s'.callSteps name + 9 ≤ turn) (hk : k < (s.port.waiting name).length)
    (hlong : k * turn + s.turnsLeft name ≤ as.countP (own name)) :
    (s.port.waiting name).take (k + 1) <+: ps := by
  induction as generalizing s k ps with
  | nil =>
    have := turnsLeft_pos s name
    rw [List.countP_nil] at hlong
    omega
  | cons a as ih =>
    obtain ⟨s₁, e, ps₁, hstep, hr₁, rfl⟩ := Machine.run_cons _ |>.mp hr
    obtain ⟨⟨out, hs⟩, rfl⟩ := Machine.observing_step.mp hstep
    have h₁ := h.step hs
    cases ha : own name a with
    | false =>
      obtain ⟨hnone, hwait, hsame⟩ := other_turn h.routable.shared ha hs
      rw [List.countP_cons_of_neg (by simp [ha])] at hlong
      have hpre := ih h₁ hr₁ (Nat.lt_of_lt_of_le hk hwait.length_le) (hsame ▸ hlong)
      rw [hnone, List.nil_append]
      refine List.IsPrefix.trans ?_ hpre
      exact hwait.take _
    | true =>
      rw [List.countP_cons_of_pos ha] at hlong
      rcases own_turn h.routable.shared h.callbackSet ha (List.ne_nil_of_length_pos (by omega)) hs
        with ⟨hnone, hsame, hless⟩ | ⟨packet, hhands, hcons⟩
      · have hpre := ih h₁ hr₁ (hsame ▸ hk) (by omega)
        rw [hnone, List.nil_append]
        rwa [hsame] at hpre
      · rw [hhands, hcons]
        cases k with
        | zero => simp
        | succ k =>
          rw [hcons, List.length_cons] at hk
          have hle : s₁.turnsLeft name ≤ turn := by
            obtain ⟨es, hrun⟩ := Machine.run_of_observing hr₁
            have hg := ((h₁.routable.along as).last hrun).2
            exact (h₁.turnsLeft_le name).trans
              ((Nat.add_le_add_right (callSteps_mono hg.allocated) 9).trans hturn)
          have hpos := turnsLeft_pos s name
          have hpre := ih (k := k) h₁ hr₁ (by omega) (by
            rw [Nat.succ_mul] at hlong
            omega)
          exact List.cons_prefix_cons.mpr ⟨rfl, hpre⟩

/-- The first `k` packets of a queue are handed to its callback, in order, once its worker has taken
`k` times the steps of a call and nine more, whatever the kernel and the other threads do. -/
def ServesInTurn (s : EchoSystem) (name : QueueName) : Prop :=
  ∀ as s' ps k, (machine.observing (handsOver name)).run s as = some (s', ps) →
    k ≤ (s.port.waiting name).length → k * (s'.callSteps name + 9) ≤ as.countP (own name) →
      (s.port.waiting name).take k <+: ps

theorem Prompt.servesInTurn (h : s.Prompt) (name : QueueName) : s.ServesInTurn name := by
  intro as s' ps k hr hk hlong
  cases k with
  | zero => simp
  | succ k =>
    obtain ⟨es, hrun⟩ := Machine.run_of_observing hr
    have hg := ((h.routable.along as).last hrun).2
    have hturn := (h.turnsLeft_le name).trans
      (Nat.add_le_add_right (callSteps_mono hg.allocated) 9)
    apply h.served hr le_rfl hk
    rw [Nat.succ_mul] at hlong
    omega

/-- No packet waits forever in a queue. -/
theorem served_along (memory : ℕ → ClientDataSet) (buffers : QueueName → ℕ → Packet) (n : ℕ)
    (errorCode : ℤ → ℤ) (taken : ℕ → Bool) (as : List Act) :
    machine.Along (start memory buffers n errorCode taken) as fun _ s =>
      ∀ name, s.ServesInTurn name := by
  have hprompt : machine.Along (start memory buffers n errorCode taken) as fun _ s => s.Prompt := by
    apply Machine.along_of_step
    · exact ⟨start_routable memory buffers n errorCode taken, rfl,
        start_stepsLeft memory buffers n errorCode taken⟩
    · exact fun _ _ _ _ _ h hs => h.step hs
  intro bs es s hp hr name
  exact (hprompt bs es s hp hr).servesInTurn name

end EchoSystem

end EchoIocp
