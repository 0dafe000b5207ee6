import EchoIocp.IOCompletionPort

namespace EchoIocp

open LockFreeCircleQueue

namespace Completion

/-- The queue a successful completion belongs to. -/
def isFor (c : Completion) (name : QueueName) : Bool :=
  match c.overlapped, name with
  | none, _ => false
  | some o, .acceptQueue => o.operationType = .opAccept
  | some o, .sendQueue => o.operationType = .opSend && 0 < c.bytesTransferred
  | some o, .receiveQueue => o.operationType = .opRecv && 0 < c.bytesTransferred
  | some o, .disconnectQueue => o.operationType ≠ .opAccept && c.bytesTransferred = 0

/-- A successful accept, receive or send, or a zero-byte completion that is no accept. -/
def Successful (c : Completion) : Prop :=
  c.result = true ∧ c.bytesTransferred ≤ c.buffer.length ∧
    ∃ o, c.overlapped = some o ∧ (o.operationType = .opDefault → c.bytesTransferred = 0)

end Completion

/-- The packet has the id of the completion and, for a receive or a send, its bytes. -/
def Carries (name : QueueName) (p : Packet) (c : Completion) : Prop :=
  (∃ o, c.overlapped = some o ∧ p.clientID = o.id) ∧
    (name = .receiveQueue ∨ name = .sendQueue → ∃ bytes, p.buffer = some bytes ∧
      p.dataSize = c.bytesTransferred ∧ bytes.length = c.bytesTransferred ∧ bytes <+: c.buffer)

/-- Each successful completion makes one packet, for its own queue. -/
theorem dispatchTo_spec {c : Completion} (h : c.Successful) (name : QueueName) :
    List.Forall₂ (Carries name) (dispatchTo name c) (if c.isFor name then [c] else []) := by
  obtain ⟨hr, hlen, o, ho, hdef⟩ := h
  have hid (p : Packet) (hp : p.clientID = o.id) (hn : name ≠ .receiveQueue)
      (hn' : name ≠ .sendQueue) : Carries name p c :=
    ⟨⟨o, ho, hp⟩, fun h => absurd h (by simp [hn, hn'])⟩
  have hdata : Carries name (Packet.setData default o.id c.buffer c.bytesTransferred) c :=
    ⟨⟨o, ho, rfl⟩, fun _ => ⟨_, rfl, rfl, List.length_take_of_le hlen, List.take_prefix _ _⟩⟩
  by_cases hz : c.bytesTransferred = 0
  · cases ht : o.operationType <;> cases name <;>
      simp_all [dispatchTo, dispatch, Completion.isFor, Packet.set]
  · cases ht : o.operationType <;> cases name <;>
      simp_all [dispatchTo, dispatch, Completion.isFor, Packet.set, Nat.pos_of_ne_zero]

namespace IOCompletionPort

inductive Act
  | dequeue (c : Completion)
  | process
  | worker (name : QueueName)

inductive Event
  | dequeued (c : Completion)
  | pushed (p : Pushed)
  | worked (name : QueueName) (e : WorkerEvent Packet)

/-- `Process` dequeues when its last push is over; the workers go at any pace. -/
def machine : Machine IOCompletionPort Act Event where
  step port
    | .dequeue c => if port.process.isNone then some (port.begin c, [.dequeued c]) else none
    | .process => port.processStep.map fun r => (r.1, (r.2.map .pushed).toList)
    | .worker name =>
      let r := port.workerStep name
      some (r.1, (r.2.map (.worked name)).toList)

def dequeued (name : QueueName) (es : List Event) : List Completion :=
  es.flatMap fun | .dequeued c => if c.isFor name then [c] else [] | _ => []

def handed (name : QueueName) (es : List Event) : List Packet :=
  es.flatMap fun | .worked other (.fronted d) => if other = name then [d] else [] | _ => []

/-- Per queue, the packets handed to the callback, then the queued ones, then the one `Process`
is pushing are the completions of that kind, each once and in order. -/
def Conserved (es : List Event) (port : IOCompletionPort) : Prop :=
  ∀ name, List.Forall₂ (Carries name) (handed name es ++ port.transit name) (dequeued name es)

/-- A push that loads `outputIndex` finds less than `MAX_QUEUE_SIZE - 1` unpopped packets. -/
def Room (port : IOCompletionPort) (a : Act) : Prop :=
  a = .process → ∀ name packet cur, port.process = some (name, .loadOutput packet cur) →
    (port.queues name).contents.length + 1 < maxQueueSize

@[simp] theorem dequeued_append (name : QueueName) (es es' : List Event) :
    dequeued name (es ++ es') = dequeued name es ++ dequeued name es' := List.flatMap_append

@[simp] theorem handed_append (name : QueueName) (es es' : List Event) :
    handed name (es ++ es') = handed name es ++ handed name es' := List.flatMap_append

variable {port port' : IOCompletionPort} {a : Act} {es out : List Event}

theorem dequeue_spec {c : Completion} (h : port.Shared) (hc : Conserved es port)
    (ha : c.Successful) (hs : machine.step port (.dequeue c) = some (port', out)) :
    port'.Shared ∧ Conserved (es ++ out) port' := by
  simp only [machine] at hs
  split_ifs at hs with hidle
  obtain ⟨rfl, rfl⟩ := Prod.mk.inj (Option.some.inj hs)
  obtain ⟨hsh, ht⟩ := begin_spec h (Option.isNone_iff_eq_none.mp hidle) c
  refine ⟨hsh, fun name => ?_⟩
  have hd : dequeued name [.dequeued c] = if c.isFor name then [c] else [] := by simp [dequeued]
  have hh : handed name [Event.dequeued c] = [] := rfl
  rw [handed_append, dequeued_append, hh, hd, List.append_nil, ht, ← List.append_assoc]
  exact List.rel_append (hc name) (dispatchTo_spec ha name)

theorem process_spec (h : port.Shared) (hc : Conserved es port)
    (hs : machine.step port .process = some (port', out)) :
    port'.Shared ∧ (Conserved (es ++ out) port' ↔ Room port .process) := by
  simp only [machine, Option.map_eq_some_iff, Prod.mk.injEq] at hs
  obtain ⟨⟨port₁, pushed⟩, hstep, rfl, rfl⟩ := hs
  obtain ⟨hsh, -, -, heff⟩ := processStep_spec h hstep
  have hiff := refused_iff h hstep
  have hout (name : QueueName) : handed name (pushed.map Event.pushed).toList = [] ∧
      dequeued name (pushed.map Event.pushed).toList = [] := by
    cases pushed <;> exact ⟨rfl, rfl⟩
  have hroom : Room port .process ↔ ¬ ∃ name packet, pushed = some ⟨name, packet, false⟩ := by
    rw [hiff]
    constructor
    · rintro hr ⟨name, packet, cur, hp, hfull⟩
      have := hr rfl name packet cur hp
      omega
    · intro hn _ name packet cur hp
      have hlt := length_lt (h name).inRange
      have hne : (port.queues name).contents.length + 1 ≠ maxQueueSize :=
        fun he => hn ⟨name, packet, cur, hp, he⟩
      omega
  refine ⟨hsh, ?_⟩
  rw [hroom]
  cases heff with
  | going name pc hp ht | accepted name packet hp ht =>
    refine iff_of_true (fun other => ?_) (by simp)
    rw [handed_append, dequeued_append, (hout other).1, (hout other).2, List.append_nil,
      List.append_nil, ht]
    exact hc other
  | refused name packet hp hfull hlost ht =>
    refine iff_of_false (fun hc' => ?_) (not_not_intro ⟨name, packet, rfl⟩)
    -- one packet fewer is on its way than was dequeued: the lengths tell
    have hlen := (hc name).length_eq
    have hlen' := (hc' name).length_eq
    rw [hlost] at hlen
    rw [handed_append, dequeued_append, (hout name).1, (hout name).2] at hlen'
    simp only [List.length_append, List.length_nil, List.length_singleton] at hlen hlen'
    omega

theorem worker_spec {name : QueueName} (h : port.Shared) (hc : Conserved es port)
    (hs : machine.step port (.worker name) = some (port', out)) :
    port'.Shared ∧ Conserved (es ++ out) port' := by
  simp only [machine] at hs
  obtain ⟨rfl, rfl⟩ := Prod.mk.inj (Option.some.inj hs)
  obtain ⟨hsh, -, -, -, heff⟩ := workerStep_spec h name
  refine ⟨hsh, fun other => ?_⟩
  have hold := hc other
  generalize (port.workerStep name).1 = port₁ at heff ⊢
  generalize (port.workerStep name).2 = e at heff ⊢
  cases heff with
  | quiet hl hcall ht =>
    simpa [ht] using hold
  | popped d hcall ht =>
    simpa [handed, dequeued, ht] using hold
  | fronted d hcall ht ho =>
    by_cases hn : name = other
    · subst hn
      rw [ht] at hold
      simpa [handed, dequeued] using hold
    · simpa [handed, dequeued, hn, ho other hn] using hold

/-- A step keeps the completions together exactly when it is not refused a push. -/
theorem step_spec (h : port.Shared) (hc : Conserved es port)
    (ha : ∀ c, a = .dequeue c → c.Successful) (hs : machine.step port a = some (port', out)) :
    port'.Shared ∧ (Conserved (es ++ out) port' ↔ Room port a) := by
  cases a with
  | dequeue c =>
    obtain ⟨hsh, hc'⟩ := dequeue_spec h hc (ha c rfl) hs
    exact ⟨hsh, iff_of_true hc' fun hp => absurd hp (by simp)⟩
  | process => exact process_spec h hc hs
  | worker name =>
    obtain ⟨hsh, hc'⟩ := worker_spec h hc hs
    exact ⟨hsh, iff_of_true hc' fun hp => absurd hp (by simp)⟩

theorem room_of_stuck (h : machine.step port a = none) : Room port a := by
  rintro rfl name packet cur hp
  simp [machine, processStep, hp] at h

/-- No completion is lost, doubled, reordered or changed on the way to its callback exactly when
every push finds room at its load of `outputIndex`. -/
theorem conserved_along_iff (buffers : QueueName → ℕ → Packet) (callbackSet : Bool)
    (as : List Act) (ha : ∀ c, .dequeue c ∈ as → c.Successful) :
    machine.Along (new buffers callbackSet) as Conserved ↔
      machine.Steps (new buffers callbackSet) as Room := by
  refine Machine.along_iff_steps (J := fun _ => Shared) ?_ ?_ fun _ _ => room_of_stuck
  · exact ⟨new_shared buffers callbackSet, fun name => by simp [handed, dequeued]⟩
  · intro bs es port a port' out hp _ hsh hc hs
    apply step_spec hsh hc _ hs
    rintro c rfl
    exact ha c (hp.subset (List.mem_append_right _ (List.mem_singleton_self _)))

def acceptOf (id : ℤ) : Completion :=
  ⟨true, 0, some { CustomOverlapped.zero with operationType := .opAccept, id := id }, []⟩

theorem acceptOf_successful (id : ℤ) : (acceptOf id).Successful :=
  ⟨rfl, Nat.zero_le _, _, rfl, fun _ => rfl⟩

/-- One completion dequeued and pushed, the worker asleep. -/
def round : List Act := [.dequeue (acceptOf 0), .process, .process, .process, .process]

theorem conserved_along_iff_one_accept :
    machine.Along (new (fun _ _ => default) true) (round ++ List.replicate 5 (.worker .acceptQueue))
        Conserved ↔
      machine.Steps (new (fun _ _ => default) true)
        (round ++ List.replicate 5 (.worker .acceptQueue)) Room :=
  conserved_along_iff (fun _ _ => default) true _ fun c hc => by
    have : c = acceptOf 0 := by simpa [round] using hc
    exact this ▸ acceptOf_successful 0

def backlog (k : ℕ) (buffer : ℕ → Packet) : IOCompletionPort :=
  { new (fun _ _ => default) true with
    queues := Function.update (fun _ => .new fun _ => default) .acceptQueue ⟨k, 0, buffer⟩ }

theorem dequeue_backlog (k : ℕ) (buffer : ℕ → Packet) :
    machine.step (backlog k buffer) (.dequeue (acceptOf 0)) =
      some ({ backlog k buffer with
        process := some (.acceptQueue, .loadInput (Packet.set default 0)) },
        [.dequeued (acceptOf 0)]) := rfl

theorem backlog_round {k : ℕ} (hk : k + 1 < maxQueueSize) (buffer : ℕ → Packet) :
    machine.run (backlog k buffer) round = some
      (backlog (k + 1) (Function.update buffer k (Packet.set default 0)),
        [.dequeued (acceptOf 0), .pushed ⟨.acceptQueue, Packet.set default 0, true⟩]) := by
  have hmod : (k + 1) % maxQueueSize = k + 1 := Nat.mod_eq_of_lt hk
  simp only [round, Machine.run, dequeue_backlog]
  simp [machine, processStep, pushStep, backlog, new, hmod, PushPc.data]

theorem backlog_run {k : ℕ} (hk : k < maxQueueSize) : ∃ buffer es,
    machine.run (new (fun _ _ => default) true) (List.replicate k round).flatten =
      some (backlog k buffer, es) ∧
    (dequeued .acceptQueue es).length = k ∧ handed .acceptQueue es = [] := by
  induction k with
  | zero =>
    refine ⟨fun _ => default, [], ?_, rfl, rfl⟩
    simp [backlog, new, LockFreeCircleQueue.new]
  | succ k ih =>
    obtain ⟨buffer, es, hr, hd, hh⟩ := ih (by omega)
    have hrun := (Machine.run_append _).mpr ⟨_, _, _, hr, backlog_round hk buffer, rfl⟩
    rw [← List.flatten_concat, ← List.replicate_succ'] at hrun
    refine ⟨_, _, hrun, ?_, ?_⟩
    · rw [dequeued_append, List.length_append, hd]
      rfl
    · rw [handed_append, hh]
      rfl

/-- The hundredth accept finds the queue full: `push` returns false and the packet is gone. -/
theorem accept_dropped : ∃ port es, machine.run (new (fun _ _ => default) true)
    ((List.replicate 99 round).flatten ++ [.dequeue (acceptOf 0), .process, .process]) =
      some (port, es) ∧ port.process = none ∧ ¬ Conserved es port := by
  obtain ⟨buffer, es, hr, hd, hh⟩ := backlog_run (k := 99) (by decide)
  have hlast : machine.run (backlog 99 buffer) [.dequeue (acceptOf 0), .process, .process] =
      some (backlog 99 buffer,
        [.dequeued (acceptOf 0), .pushed ⟨.acceptQueue, Packet.set default 0, false⟩]) := by
    simp only [Machine.run, dequeue_backlog]
    simp [machine, processStep, pushStep, backlog, new, PushPc.data]
  refine ⟨_, _, (Machine.run_append _).mpr ⟨_, _, _, hr, hlast, rfl⟩, rfl, fun hc => ?_⟩
  have hlen := (hc .acceptQueue).length_eq
  have hq : (backlog 99 buffer).transit .acceptQueue =
      (⟨99, 0, buffer⟩ : LockFreeCircleQueue Packet).contents := by
    simp [transit, backlog, new, pushing, unhanded, WorkerPc.lingering]
  simp only [handed_append, dequeued_append, hh, hq, List.length_append, contents_length, hd]
    at hlen
  exact absurd hlen (by decide)

end IOCompletionPort

end EchoIocp
