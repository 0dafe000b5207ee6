import EchoIocp.Lib.Machine
import EchoIocp.LockFreeCircleQueue

namespace EchoIocp

namespace LockFreeCircleQueue

variable {T : Type*}

/-- Where a call of `push` is. -/
inductive PushPc (T : Type*)
  | loadInput (data : T)
  | loadOutput (data : T) (currentInputIndex : ℕ)
  | write (data : T) (currentInputIndex nextIndex : ℕ)
  | storeInput (data : T) (currentInputIndex nextIndex : ℕ)

def PushPc.data : PushPc T → T
  | .loadInput data | .loadOutput data _ | .write data _ _ | .storeInput data _ _ => data

def pushStep (q : LockFreeCircleQueue T) : PushPc T → LockFreeCircleQueue T × (PushPc T ⊕ Bool)
  | .loadInput data => (q, .inl (.loadOutput data q.inputIndex))
  | .loadOutput data currentInputIndex =>
    let nextIndex := (currentInputIndex + 1) % maxQueueSize
    if nextIndex = q.outputIndex then (q, .inr false)
    else (q, .inl (.write data currentInputIndex nextIndex))
  | .write data currentInputIndex nextIndex =>
    ({ q with buffer := Function.update q.buffer currentInputIndex data },
      .inl (.storeInput data currentInputIndex nextIndex))
  | .storeInput _ _ nextIndex => ({ q with inputIndex := nextIndex }, .inr true)

inductive PopPc (T : Type*)
  | loadOutput
  | loadInput (currentOutputIndex : ℕ)
  | read (currentOutputIndex : ℕ)
  | storeOutput (currentOutputIndex : ℕ) (data : T)

def popStep [Inhabited T] (q : LockFreeCircleQueue T) :
    PopPc T → LockFreeCircleQueue T × (PopPc T ⊕ T)
  | .loadOutput => (q, .inl (.loadInput q.outputIndex))
  | .loadInput currentOutputIndex =>
    if currentOutputIndex = q.inputIndex then (q, .inr default)
    else (q, .inl (.read currentOutputIndex))
  | .read currentOutputIndex =>
    (q, .inl (.storeOutput currentOutputIndex (q.buffer currentOutputIndex)))
  | .storeOutput currentOutputIndex data =>
    ({ q with outputIndex := (currentOutputIndex + 1) % maxQueueSize }, .inr data)

/-- Where a call of `empty` is; only its caller moves `outputIndex`. -/
inductive EmptyPc
  | loadInput
  | loadOutput (input : ℕ)

def emptyStep (q : LockFreeCircleQueue T) : EmptyPc → EmptyPc ⊕ Bool
  | .loadInput => .inl (.loadOutput q.inputIndex)
  | .loadOutput input => .inr (input == q.outputIndex)

inductive FrontPc
  | loadOutput
  | read (output : ℕ)

def frontStep (q : LockFreeCircleQueue T) : FrontPc → FrontPc ⊕ T
  | .loadOutput => .inl (.read q.outputIndex)
  | .read output => .inr (q.buffer output)

/-- Where a worker loop is: `empty()`, `Front()`, the callback, `pop()`. -/
inductive WorkerPc (T : Type*)
  | empty (pc : EmptyPc)
  | front (pc : FrontPc)
  | calling (d : T)
  | pop (pc : PopPc T)

/-- What a worker step shows: `Front()` hands an element to the callback, `pop()` returns one. -/
inductive WorkerEvent (T : Type*)
  | fronted (d : T)
  | popped (d : T)

/-- One step of a worker loop; `callbackSet` is the test of the callback after `empty()`. -/
def workerStep [Inhabited T] (q : LockFreeCircleQueue T) (callbackSet : Bool) :
    WorkerPc T → LockFreeCircleQueue T × WorkerPc T × Option (WorkerEvent T)
  | .empty pc =>
    match q.emptyStep pc with
    | .inl pc => (q, .empty pc, none)
    | .inr true => (q, .empty .loadInput, none)
    | .inr false => (q, if callbackSet then .front .loadOutput else .empty .loadInput, none)
  | .front pc =>
    match q.frontStep pc with
    | .inl pc => (q, .front pc, none)
    | .inr d => (q, .calling d, some (.fronted d))
  | .calling _ => (q, .pop .loadOutput, none)
  | .pop pc =>
    match q.popStep pc with
    | (q, .inl pc) => (q, .pop pc, none)
    | (q, .inr d) => (q, .empty .loadInput, some (.popped d))

def Nonempty (q : LockFreeCircleQueue T) : Prop := q.outputIndex ≠ q.inputIndex

def ProducerOk (q : LockFreeCircleQueue T) : Option (PushPc T) → Prop
  | none | some (.loadInput _) => True
  | some (.loadOutput _ cur) => cur = q.inputIndex
  | some (.write _ cur next) =>
    cur = q.inputIndex ∧ next = (cur + 1) % maxQueueSize ∧ next ≠ q.outputIndex
  | some (.storeInput data cur next) =>
    cur = q.inputIndex ∧ next = (cur + 1) % maxQueueSize ∧ next ≠ q.outputIndex ∧
      q.buffer cur = data

def ConsumerOk (q : LockFreeCircleQueue T) : WorkerPc T → Prop
  | .empty .loadInput => True
  | .empty (.loadOutput input) => input ≠ q.outputIndex → q.Nonempty
  | .front .loadOutput | .pop .loadOutput => q.Nonempty
  | .front (.read cur) | .pop (.loadInput cur) | .pop (.read cur) =>
    q.Nonempty ∧ cur = q.outputIndex
  | .calling d => q.Nonempty ∧ d = q.buffer q.outputIndex
  | .pop (.storeOutput cur data) =>
    q.Nonempty ∧ cur = q.outputIndex ∧ data = q.buffer q.outputIndex

/-- The invariant of a queue shared by one producer and one worker. -/
structure Shared (q : LockFreeCircleQueue T) (p : Option (PushPc T)) (c : WorkerPc T) : Prop where
  inRange : q.InRange
  producer : q.ProducerOk p
  consumer : q.ConsumerOk c

/-- The worker has handed the head to its callback and not popped it yet. -/
def WorkerPc.lingering : WorkerPc T → Bool
  | .calling _ | .pop _ => true
  | .empty _ | .front _ => false

/-- The elements no callback has been given. -/
def unhanded (q : LockFreeCircleQueue T) (c : WorkerPc T) : List T :=
  if c.lingering then q.contents.tail else q.contents

variable {q q' : LockFreeCircleQueue T} {p : Option (PushPc T)} {pc pc' : PushPc T}
  {c c' : WorkerPc T} {d : T}

theorem new_shared (buffer : ℕ → T) : (new buffer).Shared none (.empty .loadInput) :=
  ⟨new_inRange buffer, trivial, trivial⟩

theorem Shared.call (h : q.Shared p c) (d : T) : q.Shared (some (.loadInput d)) c :=
  ⟨h.inRange, trivial, h.consumer⟩

theorem contents_of_nonempty (h : q.InRange) (hn : q.Nonempty) :
    q.contents = q.buffer q.outputIndex :: q.contents.tail := by
  rw [contents_storeOutput h hn]
  rfl

theorem ConsumerOk.write (h : q.ConsumerOk c) :
    { q with buffer := Function.update q.buffer q.inputIndex d }.ConsumerOk c := by
  -- the slot written is not the head as long as the queue holds anything
  have hb (hn : q.outputIndex ≠ q.inputIndex) :
      Function.update q.buffer q.inputIndex d q.outputIndex = q.buffer q.outputIndex :=
    Function.update_of_ne hn _ _
  match c, h with
  | .empty .loadInput, h => trivial
  | .empty (.loadOutput _), h => exact h
  | .front .loadOutput, h | .pop .loadOutput, h => exact h
  | .front (.read _), h | .pop (.loadInput _), h | .pop (.read _), h => exact h
  | .calling _, ⟨hn, hd⟩ => exact ⟨hn, hd.trans (hb hn).symm⟩
  | .pop (.storeOutput _ _), ⟨hn, hc, hd⟩ => exact ⟨hn, hc, hd.trans (hb hn).symm⟩

theorem ConsumerOk.storeInput {next : ℕ} (h : q.ConsumerOk c) (hne : next ≠ q.outputIndex) :
    { q with inputIndex := next }.ConsumerOk c := by
  have hn : { q with inputIndex := next }.Nonempty := fun he => hne he.symm
  match c, h with
  | .empty .loadInput, h => trivial
  | .empty (.loadOutput _), h => exact fun _ => hn
  | .front .loadOutput, h | .pop .loadOutput, h => exact hn
  | .front (.read _), h | .pop (.loadInput _), h | .pop (.read _), h => exact ⟨hn, h.2⟩
  | .calling _, h => exact ⟨hn, h.2⟩
  | .pop (.storeOutput _ _), h => exact ⟨hn, h.2⟩

/-- Everything a step of `push` can do. -/
theorem pushStep_cases (h : q.Shared (some pc) c) :
    (∃ pc', (q.pushStep pc).2 = .inl pc' ∧ pc'.data = pc.data ∧
      (q.pushStep pc).1.Shared (some pc') c ∧ (q.pushStep pc).1.contents = q.contents) ∨
    (q.pushStep pc = (q, .inr false) ∧ q.contents.length + 1 = maxQueueSize) ∨
    ((q.pushStep pc).2 = .inr true ∧ (q.pushStep pc).1.Shared none c ∧
      (q.pushStep pc).1.contents = q.contents ++ [pc.data]) := by
  obtain ⟨hr, hp, hc⟩ := h
  match pc, hp with
  | .loadInput data, hp => exact .inl ⟨_, rfl, rfl, ⟨hr, rfl, hc⟩, rfl⟩
  | .loadOutput data cur, hp =>
    obtain rfl : cur = q.inputIndex := hp
    -- only this load of `outputIndex` can refuse; later the consumer can but make room
    by_cases hf : (q.inputIndex + 1) % maxQueueSize = q.outputIndex
    · right; left
      exact ⟨by simp only [pushStep, if_pos hf], (full_iff hr).mp hf⟩
    · left
      simp only [pushStep, if_neg hf]
      exact ⟨_, rfl, rfl, ⟨hr, ⟨rfl, rfl, hf⟩, hc⟩, trivial⟩
  | .write data cur next, hp =>
    obtain ⟨rfl, hnext, hne⟩ := hp
    exact .inl ⟨_, rfl, rfl, ⟨hr, ⟨rfl, hnext, hne, Function.update_self _ _ _⟩, hc.write⟩,
      contents_write hr⟩
  | .storeInput data cur next, hp =>
    obtain ⟨rfl, rfl, hne, hd⟩ := hp
    right; right
    refine ⟨rfl, ⟨⟨Nat.mod_lt _ (by decide), hr.2⟩, trivial, hc.storeInput hne⟩, ?_⟩
    rw [← show q.buffer q.inputIndex = PushPc.data (.storeInput data q.inputIndex _) from hd]
    exact contents_storeInput hr hne

/-- The producer's check stays good when the consumer frees a slot. -/
theorem ProducerOk.storeOutput (h : q.ProducerOk p) (hr : q.InRange) (hn : q.Nonempty) :
    { q with outputIndex := (q.outputIndex + 1) % maxQueueSize }.ProducerOk p := by
  have hfree (hne : (q.inputIndex + 1) % maxQueueSize ≠ q.outputIndex) :
      (q.inputIndex + 1) % maxQueueSize ≠ (q.outputIndex + 1) % maxQueueSize := by
    have hi := hr.1
    have ho := hr.2
    have hoi : q.outputIndex ≠ q.inputIndex := hn
    simp only [maxQueueSize] at *
    omega
  match p, h with
  | none, h | some (.loadInput _), h => trivial
  | some (.loadOutput _ _), h => exact h
  | some (.write _ _ _), ⟨rfl, rfl, hne⟩ => exact ⟨rfl, rfl, hfree hne⟩
  | some (.storeInput _ _ _), ⟨rfl, rfl, hne, hd⟩ => exact ⟨rfl, rfl, hfree hne, hd⟩

/-- Everything a step of a worker loop can do. -/
theorem workerStep_cases [Inhabited T] (h : q.Shared p c) (callbackSet : Bool) :
    (∃ c', q.workerStep callbackSet c = (q, c', none) ∧ q.Shared p c' ∧
      c'.lingering = c.lingering) ∨
    (∃ d, q.workerStep callbackSet c = (q, .calling d, some (.fronted d)) ∧
      q.Shared p (.calling d) ∧ c.lingering = false ∧ q.contents = d :: q.contents.tail) ∨
    (∃ d q', q.workerStep callbackSet c = (q', .empty .loadInput, some (.popped d)) ∧
      q'.Shared p (.empty .loadInput) ∧ c.lingering = true ∧ q.contents = d :: q'.contents) := by
  obtain ⟨hr, hp, hc⟩ := h
  match c, hc with
  | .empty .loadInput, hc => exact .inl ⟨_, rfl, ⟨hr, hp, fun hne => hne.symm⟩, rfl⟩
  | .empty (.loadOutput input), hc =>
    left
    -- a stale `inputIndex` only hides elements, so a false `empty` is to be trusted
    by_cases he : input = q.outputIndex
    · exact ⟨.empty .loadInput, by simp [workerStep, emptyStep, he], ⟨hr, hp, trivial⟩, rfl⟩
    · have hb : (input == q.outputIndex) = false := beq_false_of_ne he
      cases callbackSet with
      | true => exact ⟨.front .loadOutput, by simp [workerStep, emptyStep, hb],
          ⟨hr, hp, hc he⟩, rfl⟩
      | false => exact ⟨.empty .loadInput, by simp [workerStep, emptyStep, hb],
          ⟨hr, hp, trivial⟩, rfl⟩
  | .front .loadOutput, hc => exact .inl ⟨_, rfl, ⟨hr, hp, hc, rfl⟩, rfl⟩
  | .front (.read cur), hc =>
    obtain ⟨hn, rfl⟩ := hc
    right; left
    exact ⟨_, rfl, ⟨hr, hp, hn, rfl⟩, rfl, contents_of_nonempty hr hn⟩
  | .calling d, hc => exact .inl ⟨_, rfl, ⟨hr, hp, hc.1⟩, rfl⟩
  | .pop .loadOutput, hc => exact .inl ⟨_, rfl, ⟨hr, hp, hc, rfl⟩, rfl⟩
  | .pop (.loadInput cur), hc =>
    obtain ⟨hn, rfl⟩ := hc
    left
    refine ⟨.pop (.read q.outputIndex), ?_, ⟨hr, hp, hn, rfl⟩, rfl⟩
    have hne : q.outputIndex ≠ q.inputIndex := hn
    simp [workerStep, popStep, hne]
  | .pop (.read cur), hc =>
    obtain ⟨hn, rfl⟩ := hc
    exact .inl ⟨_, rfl, ⟨hr, hp, hn, rfl, rfl⟩, rfl⟩
  | .pop (.storeOutput cur data), hc =>
    obtain ⟨hn, rfl, rfl⟩ := hc
    right; right
    exact ⟨_, _, rfl, ⟨⟨hr.1, Nat.mod_lt _ (by decide)⟩, hp.storeOutput hr hn, trivial⟩, rfl,
      contents_storeOutput hr hn⟩

theorem workerStep_calling [Inhabited T] (q : LockFreeCircleQueue T) (callbackSet : Bool)
    (c : WorkerPc T) (d : T) : (q.workerStep callbackSet c).2.1 = .calling d ↔
      (q.workerStep callbackSet c).2.2 = some (.fronted d) := by
  match c with
  | .empty .loadInput => simp [workerStep, emptyStep]
  | .empty (.loadOutput input) =>
    simp only [workerStep, emptyStep]
    cases input == q.outputIndex <;> cases callbackSet <;> simp
  | .front .loadOutput => simp [workerStep, frontStep]
  | .front (.read _) => simp [workerStep, frontStep]
  | .calling _ => simp [workerStep]
  | .pop .loadOutput => simp [workerStep, popStep]
  | .pop (.loadInput cur) =>
    simp only [workerStep, popStep]
    by_cases he : cur = q.inputIndex <;> simp [he]
  | .pop (.read _) => simp [workerStep, popStep]
  | .pop (.storeOutput _ _) => simp [workerStep, popStep]

theorem unhanded_congr (hl : c'.lingering = c.lingering) : q.unhanded c' = q.unhanded c := by
  simp only [unhanded, hl]

theorem ConsumerOk.nonempty (h : q.ConsumerOk c) (hl : c.lingering = true) : q.Nonempty := by
  match c, h, hl with
  | .calling _, hc, _ => exact hc.1
  | .pop .loadOutput, hc, _ => exact hc
  | .pop (.loadInput _), hc, _ | .pop (.read _), hc, _ => exact hc.1
  | .pop (.storeOutput _ _), hc, _ => exact hc.1

/-- A push in front of an element still lingering at the head goes behind the unhanded ones. -/
theorem unhanded_push (h : q.Shared p c) (hq : q'.contents = q.contents ++ [d]) :
    q'.unhanded c = q.unhanded c ++ [d] := by
  cases hl : c.lingering with
  | false => simp only [unhanded, hl, hq, Bool.false_eq_true, if_false]
  | true =>
    simp only [unhanded, hl, hq, if_true]
    rw [contents_of_nonempty h.inRange (h.consumer.nonempty hl)]
    rfl

end LockFreeCircleQueue

open LockFreeCircleQueue

structure Spsc (T : Type*) where
  queue : LockFreeCircleQueue T
  producer : Option (PushPc T)
  consumer : WorkerPc T

namespace Spsc

variable {T : Type*}

inductive Act (T : Type*)
  | call (data : T)
  | producer
  | consumer

inductive Event (T : Type*)
  | accepted (data : T)
  | refused (data : T)
  | fronted (d : T)
  | popped (d : T)

def start (buffer : ℕ → T) : Spsc T := ⟨.new buffer, none, .empty .loadInput⟩

def workerEvent : WorkerEvent T → Event T
  | .fronted d => .fronted d
  | .popped d => .popped d

/-- The scheduler picks a thread; the producer starts a new call when its last one returned. -/
def machine [Inhabited T] : Machine (Spsc T) (Act T) (Event T) where
  step s
    | .call data =>
      match s.producer with
      | none => some ({ s with producer := some (.loadInput data) }, [])
      | some _ => none
    | .producer =>
      match s.producer with
      | none => none
      | some pc =>
        match s.queue.pushStep pc with
        | (q, .inl pc') => some ({ s with queue := q, producer := some pc' }, [])
        | (q, .inr true) => some ({ s with queue := q, producer := none }, [.accepted pc.data])
        | (q, .inr false) => some ({ s with queue := q, producer := none }, [.refused pc.data])
    | .consumer =>
      match s.queue.workerStep true s.consumer with
      | (q, c, e) => some ({ s with queue := q, consumer := c }, (e.map workerEvent).toList)

def accepted (es : List (Event T)) : List T :=
  es.filterMap fun | .accepted d => some d | _ => none

def fronted (es : List (Event T)) : List T :=
  es.filterMap fun | .fronted d => some d | _ => none

def popped (es : List (Event T)) : List T :=
  es.filterMap fun | .popped d => some d | _ => none

@[simp] theorem accepted_append (es es' : List (Event T)) :
    accepted (es ++ es') = accepted es ++ accepted es' := List.filterMap_append

@[simp] theorem fronted_append (es es' : List (Event T)) :
    fronted (es ++ es') = fronted es ++ fronted es' := List.filterMap_append

@[simp] theorem popped_append (es es' : List (Event T)) :
    popped (es ++ es') = popped es ++ popped es' := List.filterMap_append

def writing (s : Spsc T) : Option ℕ :=
  match s.producer with
  | some (.write _ cur _) => some cur
  | _ => none

def reading (s : Spsc T) : Option ℕ :=
  match s.consumer with
  | .front (.read cur) | .pop (.read cur) => some cur
  | _ => none

/-- What the two threads observe is a FIFO of `MAX_QUEUE_SIZE - 1` places. -/
structure Fifo [Inhabited T] (es : List (Event T)) (s : Spsc T) : Prop where
  -- nothing is lost: what was accepted and not popped is still in the slots
  conserved : accepted es = popped es ++ s.queue.contents
  popped_prefix : popped es <+: accepted es
  front_eq_pop : fronted es = popped es ∨ ∃ d, fronted es = popped es ++ [d]
  refused_full : ∀ a s' out d, machine.step s a = some (s', out) → .refused d ∈ out →
    (accepted es).length = (popped es).length + (maxQueueSize - 1) ∧ s'.queue = s.queue
  load_unchanged : ∀ data s' out, s.producer = some (.loadInput data) →
    machine.step s .producer = some (s', out) → s'.queue = s.queue
  input_lt : s.queue.inputIndex < maxQueueSize
  output_lt : s.queue.outputIndex < maxQueueSize
  no_clash : ∀ i j, s.writing = some i → s.reading = some j → i ≠ j

/-- The invariant of the two threads together with what they have observed. -/
structure Inv (es : List (Event T)) (s : Spsc T) : Prop where
  shared : s.queue.Shared s.producer s.consumer
  conserved : accepted es = popped es ++ s.queue.contents
  fronts : fronted es = popped es ++ if s.consumer.lingering then s.queue.contents.take 1 else []

theorem inv_start (buffer : ℕ → T) : Inv [] (start buffer) :=
  ⟨new_shared buffer, by simp [accepted, popped, start], by simp [fronted, popped, start,
    WorkerPc.lingering]⟩

variable [Inhabited T] {s s' : Spsc T} {es out : List (Event T)} {a : Act T}

omit [Inhabited T] in
theorem Inv.contents_of_lingering (h : Inv es s) (hl : s.consumer.lingering = true) :
    s.queue.contents = s.queue.buffer s.queue.outputIndex :: s.queue.contents.tail :=
  contents_of_nonempty h.shared.inRange (h.shared.consumer.nonempty hl)

theorem producer_cases {pc : PushPc T} (h : Inv es s) (hp : s.producer = some pc)
    (hs : machine.step s .producer = some (s', out)) :
    (∃ q pc', s' = { s with queue := q, producer := some pc' } ∧ out = [] ∧
      q.Shared (some pc') s.consumer ∧ q.contents = s.queue.contents) ∨
    (s' = { s with producer := none } ∧ out = [.refused pc.data] ∧
      s.queue.contents.length + 1 = maxQueueSize) ∨
    ∃ q, s' = { s with queue := q, producer := none } ∧ out = [.accepted pc.data] ∧
      q.Shared none s.consumer ∧ q.contents = s.queue.contents ++ [pc.data] := by
  have hsh := h.shared
  rw [hp] at hsh
  have hc := pushStep_cases hsh
  simp only [machine, hp] at hs
  cases hq : s.queue.pushStep pc with
  | mk q r =>
    simp only [hq] at hs hc
    obtain ⟨pc', rfl, -, hsh', hcont⟩ | ⟨hr, hfull⟩ | ⟨rfl, hsh', hcont⟩ := hc
    · cases hs
      exact .inl ⟨q, pc', rfl, rfl, hsh', hcont⟩
    · cases hr
      cases hs
      exact .inr (.inl ⟨rfl, rfl, hfull⟩)
    · cases hs
      exact .inr (.inr ⟨q, rfl, rfl, hsh', hcont⟩)

theorem inv_producer {pc : PushPc T} (h : Inv es s) (hp : s.producer = some pc)
    (hs : machine.step s .producer = some (s', out)) : Inv (es ++ out) s' := by
  obtain ⟨q, pc', rfl, rfl, hsh, hcont⟩ | ⟨rfl, rfl, -⟩ | ⟨q, rfl, rfl, hsh, hcont⟩ :=
    producer_cases h hp hs
  · exact ⟨hsh, by simpa [hcont] using h.conserved, by simpa [hcont] using h.fronts⟩
  · exact ⟨⟨h.shared.inRange, trivial, h.shared.consumer⟩,
      by simpa [accepted, popped] using h.conserved,
      by simpa [fronted, popped] using h.fronts⟩
  · refine ⟨hsh, ?_, ?_⟩
    · simp only [accepted_append, popped_append, h.conserved, hcont]
      simp [accepted, popped]
    · have hpop : popped [Event.accepted pc.data] = [] := rfl
      have hfro : fronted [Event.accepted pc.data] = [] := rfl
      simp only [fronted_append, popped_append, h.fronts, hpop, hfro, List.append_nil, hcont]
      split_ifs with hl
      · -- the consumer is past `empty`, so the element it lingers at stays in front
        rw [h.contents_of_lingering hl]
        rfl
      · rfl

theorem inv_consumer (h : Inv es s) (hs : machine.step s .consumer = some (s', out)) :
    Inv (es ++ out) s' := by
  have hc := workerStep_cases h.shared true
  simp only [machine] at hs
  obtain ⟨c', he, hsh, hl⟩ | ⟨d, he, hsh, hl, hcont⟩ | ⟨d, q', he, hsh, hl, hcont⟩ := hc
  · rw [he] at hs
    cases hs
    exact ⟨hsh, by simpa using h.conserved, by simpa [hl] using h.fronts⟩
  · rw [he] at hs
    cases hs
    refine ⟨hsh, by simpa [accepted, popped, workerEvent] using h.conserved, ?_⟩
    have hfr := h.fronts
    simp only [hl, Bool.false_eq_true, if_false, List.append_nil] at hfr
    simp only [fronted_append, popped_append, hfr, WorkerPc.lingering, if_true]
    rw [hcont]
    simp [fronted, popped, workerEvent]
  · rw [he] at hs
    cases hs
    have hfr := h.fronts
    simp only [hl, if_true, hcont] at hfr
    refine ⟨hsh, ?_, ?_⟩
    · simp only [accepted_append, popped_append, h.conserved, hcont]
      simp [accepted, popped, workerEvent]
    · simp only [fronted_append, popped_append, hfr, WorkerPc.lingering]
      simp [fronted, popped, workerEvent]

theorem inv_step (h : Inv es s) (hs : machine.step s a = some (s', out)) : Inv (es ++ out) s' := by
  cases a with
  | call data =>
    cases hp : s.producer with
    | none =>
      simp only [machine, hp] at hs
      cases hs
      have hsh := h.shared
      rw [hp] at hsh
      exact ⟨hsh.call data, by simpa using h.conserved, by simpa using h.fronts⟩
    | some pc => simp [machine, hp] at hs
  | producer =>
    cases hp : s.producer with
    | none => simp [machine, hp] at hs
    | some pc => exact inv_producer h hp hs
  | consumer => exact inv_consumer h hs

/-- A step that refuses is the producer's load of `outputIndex` finding the queue full. -/
theorem refused_of_step (h : Inv es s) {d : T} (hs : machine.step s a = some (s', out))
    (hd : .refused d ∈ out) : s.queue.contents.length + 1 = maxQueueSize ∧ s'.queue = s.queue := by
  cases a with
  | call data =>
    cases hp : s.producer with
    | none =>
      simp only [machine, hp] at hs
      cases hs
      simp at hd
    | some pc => simp [machine, hp] at hs
  | consumer =>
    simp only [machine] at hs
    cases hs
    cases hw : (s.queue.workerStep true s.consumer).2.2 with
    | none => simp [hw] at hd
    | some e => cases e <;> simp [hw, workerEvent] at hd
  | producer =>
    cases hp : s.producer with
    | none => simp [machine, hp] at hs
    | some pc =>
      obtain ⟨q, pc', rfl, rfl, -⟩ | ⟨rfl, rfl, hfull⟩ | ⟨q, rfl, rfl, -⟩ := producer_cases h hp hs
      · simp at hd
      · exact ⟨hfull, rfl⟩
      · simp at hd

theorem Inv.fifo (h : Inv es s) : Fifo es s where
  conserved := h.conserved
  popped_prefix := ⟨_, h.conserved.symm⟩
  front_eq_pop := by
    have hfr := h.fronts
    cases hl : s.consumer.lingering with
    | false => exact .inl (by simpa [hl] using hfr)
    | true =>
      rw [hl, if_pos rfl, h.contents_of_lingering hl] at hfr
      exact .inr ⟨_, hfr⟩
  refused_full := by
    intro a s' out d hs hd
    obtain ⟨hfull, hq⟩ := refused_of_step h hs hd
    refine ⟨?_, hq⟩
    rw [h.conserved, List.length_append]
    omega
  load_unchanged := by
    intro data s' out hp hs
    simp only [machine, hp, pushStep] at hs
    cases hs
    rfl
  input_lt := h.shared.inRange.1
  output_lt := h.shared.inRange.2
  no_clash := by
    intro i j hi hj
    have hp := h.shared.producer
    have hc := h.shared.consumer
    simp only [writing] at hi
    split at hi
    · rename_i data cur next hw
      rw [hw] at hp
      cases hi
      simp only [reading] at hj
      split at hj
      · rename_i k hr
        rw [hr] at hc
        cases hj
        rw [hp.1, hc.2]
        exact fun e => hc.1 e.symm
      · rename_i k hr
        rw [hr] at hc
        cases hj
        rw [hp.1, hc.2]
        exact fun e => hc.1 e.symm
      · cases hj
    · cases hi

/-- Under every interleaving the ring is a correct single-producer single-consumer FIFO. -/
theorem fifo_along (buffer : ℕ → T) (as : List (Act T)) :
    machine.Along (start buffer) as Fifo := by
  have h : machine.Along (start buffer) as Inv := Machine.along_of_step (inv_start buffer)
    fun es s a s' out hI hs => inv_step hI hs
  exact fun as' es s hp hr => (h as' es s hp hr).fifo

end Spsc

end EchoIocp
