import EchoIocp.CustomOverlapped
import EchoIocp.Spsc

namespace EchoIocp

open LockFreeCircleQueue

/-- What `GetQueuedCompletionStatus` reports, and the bytes `wsabuf.buf` then designates. -/
structure Completion where
  result : Bool
  bytesTransferred : ℕ
  overlapped : Option CustomOverlapped
  buffer : List UInt8

inductive QueueName
  | acceptQueue
  | sendQueue
  | receiveQueue
  | disconnectQueue
  deriving DecidableEq

/-- The queue and the packet `Process` makes of a completion, if any. -/
def dispatch (c : Completion) : Option (QueueName × Packet) :=
  match c.overlapped with
  | none => none
  | some targetOverlapped =>
    let newPacket : Packet := default
    let type := targetOverlapped.operationType
    let id := targetOverlapped.id
    if c.result then
      -- an accept reads no bytes, so zero bytes mean the end of a connection for the others only
      if c.bytesTransferred = 0 ∧ type ≠ .opAccept then some (.disconnectQueue, newPacket.set id)
      else match type with
        | .opDefault => none
        | .opAccept => some (.acceptQueue, newPacket.set id)
        | .opRecv => some (.receiveQueue, newPacket.setData id c.buffer c.bytesTransferred)
        | .opSend => some (.sendQueue, newPacket.setData id c.buffer c.bytesTransferred)
    -- a failed accept, and a failed receive or send that moved bytes, is dropped here
    else
      if c.bytesTransferred = 0 ∧ type ≠ .opAccept then some (.disconnectQueue, newPacket.set id)
      else none

/-- The packet a completion adds to a queue. -/
def dispatchTo (name : QueueName) (c : Completion) : List Packet :=
  ((dispatch c).bind fun r => if r.1 = name then some r.2 else none).toList

/-- `process` is the push under way; `callbackSet` says that `Setting` was called. -/
structure IOCompletionPort where
  queues : QueueName → LockFreeCircleQueue Packet
  workers : QueueName → WorkerPc Packet
  process : Option (QueueName × PushPc Packet)
  callbackSet : Bool

namespace IOCompletionPort

def new (buffers : QueueName → ℕ → Packet) (callbackSet : Bool) : IOCompletionPort :=
  ⟨fun name => .new (buffers name), fun _ => .empty .loadInput, none, callbackSet⟩

/-- What a push reports to `Process`, which does not look at it. -/
structure Pushed where
  name : QueueName
  packet : Packet
  accepted : Bool

variable (port : IOCompletionPort)

def begin (c : Completion) : IOCompletionPort :=
  { port with process := (dispatch c).map fun r => (r.1, .loadInput r.2) }

def processStep : Option (IOCompletionPort × Option Pushed) :=
  port.process.map fun ⟨name, pc⟩ =>
    let r := (port.queues name).pushStep pc
    let port := { port with queues := Function.update port.queues name r.1 }
    match r.2 with
    | .inl pc => ({ port with process := some (name, pc) }, none)
    | .inr accepted => ({ port with process := none }, some ⟨name, pc.data, accepted⟩)

/-- The next step of `AcceptWorker`, `SendWorker`, `ReceiveWorker` or `DisconnectWorker`. -/
def workerStep (name : QueueName) : IOCompletionPort × Option (WorkerEvent Packet) :=
  let r := (port.queues name).workerStep port.callbackSet (port.workers name)
  ({ port with
    queues := Function.update port.queues name r.1
    workers := Function.update port.workers name r.2.1 }, r.2.2)

def pushing (name : QueueName) : Option (PushPc Packet) :=
  port.process.bind fun p => if p.1 = name then some p.2 else none

/-- The packets of a queue no callback has been given, the one being pushed last. -/
def transit (name : QueueName) : List Packet :=
  (port.queues name).unhanded (port.workers name) ++ (port.pushing name).toList.map PushPc.data

def Shared : Prop := ∀ name, (port.queues name).Shared (port.pushing name) (port.workers name)

variable {port} {port' : IOCompletionPort} {name other : QueueName} {c : Completion}
  {pc : PushPc Packet}

theorem new_shared (buffers : QueueName → ℕ → Packet) (callbackSet : Bool) :
    (new buffers callbackSet).Shared := fun name => LockFreeCircleQueue.new_shared (buffers name)

@[simp] theorem new_transit (buffers : QueueName → ℕ → Packet) (callbackSet : Bool)
    (name : QueueName) : (new buffers callbackSet).transit name = [] := by
  simp [transit, new, pushing, unhanded, WorkerPc.lingering]

theorem pushing_self (h : port.process = some (name, pc)) : port.pushing name = some pc := by
  simp [pushing, h]

theorem pushing_other (h : port.process = some (name, pc)) (hn : name ≠ other) :
    port.pushing other = none := by
  simp [pushing, h, hn]

theorem pushing_idle (h : port.process = none) : port.pushing name = none := by
  simp [pushing, h]

theorem begin_spec (h : port.Shared) (hidle : port.process = none) (c : Completion) :
    (port.begin c).Shared ∧ ∀ name, (port.begin c).transit name =
      port.transit name ++ dispatchTo name c := by
  cases hd : dispatch c with
  | none =>
    have hb : port.begin c = port := by
      simp only [begin, hd, Option.map_none]
      rw [← hidle]
    rw [hb]
    exact ⟨h, fun name => by simp [dispatchTo, hd]⟩
  | some r =>
    obtain ⟨target, packet⟩ := r
    have hp : (port.begin c).process = some (target, .loadInput packet) := by simp [begin, hd]
    refine ⟨fun name => ?_, fun name => ?_⟩
    · have hs := h name
      rw [pushing_idle hidle] at hs
      by_cases hn : target = name
      · subst hn
        rw [pushing_self hp]
        exact hs.call packet
      · rw [pushing_other hp hn]
        exact hs
    · simp only [transit, pushing_idle hidle]
      by_cases hn : target = name
      · subst hn
        rw [pushing_self hp]
        simp [begin, dispatchTo, hd, PushPc.data]
      · rw [pushing_other hp hn]
        simp [begin, dispatchTo, hd, hn]

theorem shared_push {q : LockFreeCircleQueue Packet} {p : Option (PushPc Packet)}
    (h : port.Shared) (hp : port.process = some (name, pc))
    (hq : q.Shared p (port.workers name)) :
    ({ port with
        queues := Function.update port.queues name q
        process := p.map (name, ·) } : IOCompletionPort).Shared ∧
      ∀ other, name ≠ other → ({ port with
        queues := Function.update port.queues name q
        process := p.map (name, ·) } : IOCompletionPort).transit other = port.transit other := by
  have hother (other : QueueName) (hn : name ≠ other) :
      (p.map (name, ·)).bind (fun r : QueueName × PushPc Packet =>
        if r.1 = other then some r.2 else none) = none := by
    cases p <;> simp [hn]
  refine ⟨fun other => ?_, fun other hn => ?_⟩
  · by_cases hn : name = other
    · subst hn
      have hself : (p.map (name, ·)).bind (fun r : QueueName × PushPc Packet =>
          if r.1 = name then some r.2 else none) = p := by
        cases p <;> simp
      simpa only [pushing, Function.update_self, hself] using hq
    · have hs := h other
      rw [pushing_other hp hn] at hs
      simpa only [pushing, Function.update_of_ne (Ne.symm hn), hother other hn] using hs
  · simp only [transit, pushing, Function.update_of_ne (Ne.symm hn), hother other hn]
    rw [← pushing, pushing_other hp hn]

/-- What a completed step of `Process` inside a push does to the packets on their way. -/
inductive PushEffect (port port' : IOCompletionPort) : Option Pushed → Prop
  | going (name : QueueName) (pc : PushPc Packet) (hp : port'.process = some (name, pc))
      (ht : ∀ name, port'.transit name = port.transit name) : PushEffect port port' none
  | accepted (name : QueueName) (packet : Packet) (hp : port'.process = none)
      (ht : ∀ name, port'.transit name = port.transit name) :
      PushEffect port port' (some ⟨name, packet, true⟩)
  | refused (name : QueueName) (packet : Packet) (hp : port'.process = none)
      (hfull : (port.queues name).contents.length + 1 = maxQueueSize)
      (hlost : port.transit name = port'.transit name ++ [packet])
      (ht : ∀ other, name ≠ other → port'.transit other = port.transit other) :
      PushEffect port port' (some ⟨name, packet, false⟩)

theorem processStep_spec {out : Option Pushed} (h : port.Shared)
    (hs : port.processStep = some (port', out)) :
    port'.Shared ∧ port'.workers = port.workers ∧ port'.callbackSet = port.callbackSet ∧
      PushEffect port port' out := by
  simp only [processStep, Option.map_eq_some_iff] at hs
  obtain ⟨⟨name, pc⟩, hp, hs⟩ := hs
  have hq := h name
  have hself := pushing_self hp
  rw [hself] at hq
  have htransit : port.transit name =
      (port.queues name).unhanded (port.workers name) ++ [pc.data] := by
    simp [transit, hself]
  rcases pushStep_cases hq with ⟨pc', hr, hdata, hq', hcont⟩ | ⟨hr, hfull⟩ | ⟨hr, hq', hcont⟩
  · rw [hr] at hs
    obtain ⟨rfl, rfl⟩ := Prod.mk.inj hs
    obtain ⟨hsh, ht⟩ := shared_push h hp hq'
    refine ⟨hsh, rfl, rfl, .going name pc' rfl fun other => ?_⟩
    by_cases hn : name = other
    · subst hn
      rw [htransit]
      simp [transit, pushing, unhanded, hcont, hdata]
    · exact ht other hn
  · have hq' : (port.queues name).Shared none (port.workers name) :=
      ⟨hq.inRange, trivial, hq.consumer⟩
    simp only [hr] at hs
    obtain ⟨rfl, rfl⟩ := Prod.mk.inj hs
    obtain ⟨hsh, ht⟩ := shared_push h hp hq'
    refine ⟨hsh, rfl, rfl, .refused name pc.data rfl hfull ?_ ht⟩
    rw [htransit]
    simp [transit, pushing]
  · rw [hr] at hs
    obtain ⟨rfl, rfl⟩ := Prod.mk.inj hs
    obtain ⟨hsh, ht⟩ := shared_push h hp hq'
    refine ⟨hsh, rfl, rfl, .accepted name pc.data rfl fun other => ?_⟩
    by_cases hn : name = other
    · subst hn
      rw [htransit, ← unhanded_push hq hcont]
      simp [transit, pushing]
    · exact ht other hn

/-- What a step of a worker does to the packets on their way. -/
inductive WorkEffect (port port' : IOCompletionPort) (name : QueueName) :
    Option (WorkerEvent Packet) → Prop
  | quiet (hl : (port'.workers name).lingering = (port.workers name).lingering)
      (hc : ∀ d, port'.workers name ≠ .calling d)
      (ht : ∀ name, port'.transit name = port.transit name) : WorkEffect port port' name none
  | fronted (d : Packet) (hc : port'.workers name = .calling d)
      (ht : port.transit name = d :: port'.transit name)
      (ho : ∀ other, name ≠ other → port'.transit other = port.transit other) :
      WorkEffect port port' name (some (.fronted d))
  | popped (d : Packet) (hc : ∀ d, port'.workers name ≠ .calling d)
      (ht : ∀ name, port'.transit name = port.transit name) :
      WorkEffect port port' name (some (.popped d))

/-- A worker touches its own queue only. -/
theorem shared_work {q : LockFreeCircleQueue Packet} {w : WorkerPc Packet} (h : port.Shared)
    (hq : q.Shared (port.pushing name) w) :
    ({ port with
        queues := Function.update port.queues name q
        workers := Function.update port.workers name w } : IOCompletionPort).Shared ∧
      ∀ other, name ≠ other → ({ port with
        queues := Function.update port.queues name q
        workers := Function.update port.workers name w } : IOCompletionPort).transit other =
          port.transit other := by
  refine ⟨fun other => ?_, fun other hn => ?_⟩
  · by_cases hn : name = other
    · subst hn
      simpa only [pushing, Function.update_self] using hq
    · simpa only [pushing, Function.update_of_ne (Ne.symm hn)] using h other
  · simp only [transit, pushing, Function.update_of_ne (Ne.symm hn)]

theorem workerStep_spec (h : port.Shared) (name : QueueName) :
    (port.workerStep name).1.Shared ∧ (port.workerStep name).1.process = port.process ∧
      (port.workerStep name).1.callbackSet = port.callbackSet ∧
      (∀ other, name ≠ other → (port.workerStep name).1.workers other = port.workers other) ∧
      WorkEffect port (port.workerStep name).1 name (port.workerStep name).2 := by
  have hq := h name
  have hcall := workerStep_calling (port.queues name) port.callbackSet (port.workers name)
  have hworkers (other : QueueName) (hn : name ≠ other) :
      (port.workerStep name).1.workers other = port.workers other := by
    simp [workerStep, Function.update_of_ne (Ne.symm hn)]
  rcases workerStep_cases hq port.callbackSet with
    -- the callback gets the packet at `front` and not at `pop`, so `popped` moves nothing
    ⟨w, hr, hq', hl⟩ | ⟨d, hr, hq', hl, hcont⟩ | ⟨d, q, hr, hq', hl, hcont⟩
  · obtain ⟨hsh, ht⟩ := shared_work h hq'
    simp only [hr] at hcall
    simp only [workerStep, hr] at hworkers ⊢
    refine ⟨hsh, trivial, trivial, hworkers,
      .quiet (by simpa using hl) (fun d hd => ?_) fun other => ?_⟩
    · simp [hcall] at hd
    · by_cases hn : name = other
      · subst hn
        simp [transit, pushing, unhanded_congr hl]
      · exact ht other hn
  · obtain ⟨hsh, ht⟩ := shared_work h hq'
    simp only [workerStep, hr] at hworkers ⊢
    refine ⟨hsh, trivial, trivial, hworkers, .fronted d (by simp) ?_ ht⟩
    have hl' : (WorkerPc.calling d).lingering = true := rfl
    simp only [transit, pushing, unhanded, hl, hl', Function.update_self, Bool.false_eq_true,
      if_false, if_true]
    rw [hcont]
    rfl
  · obtain ⟨hsh, ht⟩ := shared_work h hq'
    simp only [workerStep, hr] at hworkers ⊢
    refine ⟨hsh, trivial, trivial, hworkers, .popped d (by simp) fun other => ?_⟩
    by_cases hn : name = other
    · subst hn
      have hl' : (WorkerPc.empty (T := Packet) .loadInput).lingering = false := rfl
      simp only [transit, pushing, unhanded, hl, hl', Function.update_self, Bool.false_eq_true,
        if_false, if_true, hcont, List.tail_cons]
    · exact ht other hn

/-- A push is refused exactly when it loads `outputIndex` of a full queue. -/
theorem pushStep_refused {q : LockFreeCircleQueue Packet} {c : WorkerPc Packet}
    (h : q.Shared (some pc) c) : (q.pushStep pc).2 = .inr false ↔
      (∃ packet cur, pc = .loadOutput packet cur) ∧ q.contents.length + 1 = maxQueueSize := by
  cases pc with
  | loadOutput packet cur =>
    obtain rfl : cur = q.inputIndex := h.producer
    simp only [pushStep]
    rw [← full_iff h.inRange]
    split_ifs with hf <;> simp [hf]
  | loadInput | write | storeInput => simp [pushStep]

theorem refused_iff {out : Option Pushed} (h : port.Shared)
    (hs : port.processStep = some (port', out)) :
    (∃ name packet, out = some ⟨name, packet, false⟩) ↔
      ∃ name packet cur, port.process = some (name, .loadOutput packet cur) ∧
        (port.queues name).contents.length + 1 = maxQueueSize := by
  simp only [processStep, Option.map_eq_some_iff] at hs
  obtain ⟨⟨name, pc⟩, hp, hs⟩ := hs
  have hq := h name
  rw [pushing_self hp] at hq
  have hiff := pushStep_refused hq
  constructor
  · rintro ⟨name', packet, rfl⟩
    have hr : ((port.queues name).pushStep pc).2 = .inr false := by
      split at hs
      · simp at hs
      · rename_i accepted hr
        simp only [Prod.mk.injEq, Option.some.injEq, Pushed.mk.injEq] at hs
        rw [hr, hs.2.2.2]
    obtain ⟨⟨packet, cur, rfl⟩, hfull⟩ := hiff.mp hr
    exact ⟨name, packet, cur, hp, hfull⟩
  · rintro ⟨name', packet, cur, hp', hfull⟩
    obtain ⟨rfl, rfl⟩ : name = name' ∧ pc = .loadOutput packet cur := by
      simpa [hp] using hp'
    rw [hiff.mpr ⟨⟨packet, cur, rfl⟩, hfull⟩] at hs
    exact ⟨name, packet, (Prod.mk.inj hs).2.symm⟩

end IOCompletionPort

end EchoIocp
