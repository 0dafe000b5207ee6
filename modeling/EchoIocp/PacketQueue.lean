import EchoIocp.PacketStore
import EchoIocp.Spsc

namespace EchoIocp

open LockFreeCircleQueue PacketObject

namespace PacketStore

/-- Nothing has gone wrong, and no block is lost. -/
structure Sound (s : PacketStore) : Prop where
  ledger : s.heap.Ledger
  owned : s.heap.Owned s.owns
  once : s.heap.released.Nodup
  accounted : s.heap.Accounted s.owns

/-- The packets of the operation are there, and its allocation succeeds. -/
def Able (s : PacketStore) : Op → Prop
  | .construct target => s.value target = none
  | .copyConstruct target source throws =>
    s.value target = none ∧ (s.value source).isSome = true ∧ throws = false
  | .assign target source throws =>
    (s.value target).isSome = true ∧ (s.value source).isSome = true ∧ throws = false
  | .set target _ | .destruct target => (s.value target).isSome = true
  | .setData target _ targetBuffer dataSize throws =>
    (s.value target).isSome = true ∧
      (∃ bytes, targetBuffer = .outside bytes ∧ dataSize ≤ bytes.length) ∧ throws = false

variable {s s' : PacketStore} {op : Op} {target o : ℕ} {h : Blocks UInt8} {this : PacketObject}
  {own : ℕ → Option (ℕ × ℕ)}

theorem isSome_value (s : PacketStore) (o : ℕ) : (s.value o).isSome = (s.packets o).isSome := by
  unfold PacketStore.value
  exact Option.isSome_map

theorem exists_of_isSome (h : (s.value o).isSome = true) : ∃ p, s.packets o = some p := by
  rw [isSome_value] at h
  exact Option.isSome_iff_exists.mp h

theorem packets_eq_none (h : s.value o = none) : s.packets o = none := by
  unfold PacketStore.value at h
  exact Option.map_eq_none_iff.mp h

theorem refill_accounted (ha : h.Accounted own) (hi : this.buffer = (own target).map Prod.fst)
    (clientID : ℤ) (source : Option (List UInt8)) (n : ℕ) :
    (refill h this clientID source n false).1.Accounted
      (Function.update own target (refill h this clientID source n false).2.1.owns) := by
  have hfree := ha.free hi
  cases source with
  | none => exact hfree
  | some bytes =>
    have halloc := hfree.alloc (Function.update_self _ _ _) (List.replicate n 0)
    rw [Function.update_idem, List.length_replicate, Blocks.free_allocated] at halloc
    rw [refill_fresh]
    unfold filled
    exact halloc.write

theorem put_accounted {p : Option PacketObject}
    (ha : h.Accounted (Function.update s.owns target (p.bind PacketObject.owns))) :
    (s.put target h p).heap.Accounted (s.put target h p).owns := by
  rw [put_owns]
  exact ha

theorem exec_accounted (hs : s.Sound) (ha : s.Able op) (he : s.exec op = some (s', false)) :
    s'.heap.Accounted s'.owns := by
  cases op with
  | construct target =>
    have hp := packets_eq_none ha
    simp only [exec, hp, Option.some.injEq, Prod.mk.injEq] at he
    obtain ⟨rfl, -⟩ := he
    exact put_accounted (hs.accounted.free (buffer_eq hp))
  | copyConstruct target source throws =>
    obtain ⟨ht, hsource, rfl⟩ := ha
    have hp := packets_eq_none ht
    obtain ⟨other, ho⟩ := exists_of_isSome hsource
    have hi : (⟨other.clientID, none, other.dataSize⟩ : PacketObject).buffer =
        (s.owns target).map Prod.fst := buffer_eq hp
    simp only [exec, hp, ho, Option.some.injEq, Prod.mk.injEq] at he
    obtain ⟨rfl, -⟩ := he
    apply put_accounted
    rw [copyConstruct_eq]
    have hr := refill_accounted hs.accounted hi other.clientID (other.buffer.map s.heap.cells)
      other.dataSize
    dsimp only
    rw [refill_threw, Bool.and_false]
    exact hr
  | assign target source throws =>
    obtain ⟨ht, hsource, rfl⟩ := ha
    obtain ⟨this, hp⟩ := exists_of_isSome ht
    obtain ⟨other, ho⟩ := exists_of_isSome hsource
    simp only [exec, hp, ho] at he
    split_ifs at he with hself
    · obtain ⟨rfl, -⟩ := Prod.mk.inj (Option.some.inj he)
      exact hs.accounted
    · obtain ⟨rfl, -⟩ := Prod.mk.inj (Option.some.inj he)
      apply put_accounted
      rw [assign_eq]
      exact refill_accounted hs.accounted (buffer_eq hp) _ _ _
  | set target clientID =>
    obtain ⟨this, hp, he⟩ := Option.map_eq_some_iff.mp he
    obtain ⟨rfl, -⟩ := Prod.mk.inj he
    have hsame : (some (this.set clientID)).bind PacketObject.owns = s.owns target := by
      unfold PacketStore.owns
      rw [hp]
      rfl
    apply put_accounted
    rw [hsame, Function.update_eq_self]
    exact hs.accounted
  | setData target clientID targetBuffer dataSize throws =>
    obtain ⟨ht, -, rfl⟩ := ha
    obtain ⟨this, hp⟩ := exists_of_isSome ht
    simp only [exec, hp] at he
    split_ifs at he
    obtain ⟨rfl, -⟩ := Prod.mk.inj (Option.some.inj he)
    apply put_accounted
    rw [setData_eq]
    exact refill_accounted hs.accounted (buffer_eq hp) _ _ _
  | destruct target =>
    obtain ⟨this, hp, he⟩ := Option.map_eq_some_iff.mp he
    obtain ⟨rfl, -⟩ := Prod.mk.inj he
    exact put_accounted (hs.accounted.free (buffer_eq hp))

theorem exec_of_able (ha : s.Able op) : ∃ s', s.exec op = some (s', false) := by
  cases op with
  | construct target =>
    simp only [exec, packets_eq_none ha]
    exact ⟨_, rfl⟩
  | copyConstruct target source throws =>
    obtain ⟨ht, hsource, rfl⟩ := ha
    obtain ⟨other, ho⟩ := exists_of_isSome hsource
    refine ⟨(s.put target (PacketObject.copyConstruct s.heap other false).1
      (PacketObject.copyConstruct s.heap other false).2), ?_⟩
    simp only [exec, packets_eq_none ht, ho]
    rw [copyConstruct_eq]
    dsimp only
    rw [refill_threw, Bool.and_false]
    rfl
  | assign target source throws =>
    obtain ⟨ht, hsource, rfl⟩ := ha
    obtain ⟨this, hp⟩ := exists_of_isSome ht
    obtain ⟨other, ho⟩ := exists_of_isSome hsource
    simp only [exec, hp, ho]
    split_ifs
    · exact ⟨s, rfl⟩
    · rw [assign_eq]
      exact ⟨_, by rw [refill_threw, Bool.and_false]⟩
  | set target clientID =>
    obtain ⟨this, hp⟩ := exists_of_isSome ha
    simp only [exec, hp, Option.map_some]
    exact ⟨_, rfl⟩
  | setData target clientID targetBuffer dataSize throws =>
    obtain ⟨ht, ⟨bytes, rfl, hlen⟩, rfl⟩ := ha
    obtain ⟨this, hp⟩ := exists_of_isSome ht
    have hread : (CharPtr.outside bytes).Readable s.heap this.buffer dataSize := hlen
    simp only [exec, hp]
    rw [if_pos hread, setData_eq]
    exact ⟨_, by rw [refill_threw, Bool.and_false]⟩
  | destruct target =>
    obtain ⟨this, hp⟩ := exists_of_isSome ha
    simp only [exec, hp, Option.map_some]
    exact ⟨_, rfl⟩

theorem Able.spares (ha : s.Able op) : ¬ s.Strands op := by
  cases op with
  | construct _ | copyConstruct _ _ _ | set _ _ | destruct _ => exact id
  | assign target source throws =>
    intro hstr
    rw [ha.2.2] at hstr
    exact Bool.noConfusion hstr.1
  | setData target clientID targetBuffer dataSize throws =>
    intro hstr
    rw [ha.2.2] at hstr
    exact Bool.noConfusion hstr.1

theorem exec_able (hs : s.Sound) (ha : s.Able op) :
    ∃ s', s.exec op = some (s', false) ∧ s'.Sound ∧ s'.value op.target = s.wanted op ∧
      ∀ o, o ≠ op.target → s'.value o = s.value o := by
  obtain ⟨s', he⟩ := exec_of_able ha
  have hp := exec_performed hs.ledger hs.owned hs.once he
  have hsound : s'.Sound :=
    ⟨hp.ledger, hp.owned.mpr ha.spares, hp.once, exec_accounted hs ha he⟩
  exact ⟨s', he, hsound, hp.faithful.target rfl, hp.faithful.others⟩

end PacketStore

/-- Where `Process` is with a completion; `newPacket` is constructed already. -/
inductive ProcessPc
  | set (clientID : ℤ) (bytes : Option (List UInt8))
  | loadInput
  | loadOutput (currentInputIndex : ℕ)
  | write (currentInputIndex nextIndex : ℕ)
  | storeInput (currentInputIndex nextIndex : ℕ)
  | destruct

def ProcessPc.sets : ProcessPc → Bool
  | .set _ _ => true
  | _ => false

/-- Where a worker is; the result of `pop` is destroyed at once. -/
inductive WorkPc
  | emptyInput
  | emptyOutput (input : ℕ)
  | frontOutput
  | frontCopy (output : ℕ)
  | calling
  | popOutput
  | popInput (currentOutputIndex : ℕ)
  | popCopy (currentOutputIndex : ℕ)
  | popStore (currentOutputIndex : ℕ)
  | popDestruct

def WorkPc.calls : WorkPc → Bool
  | .calling => true
  | _ => false

def WorkPc.pops : WorkPc → Bool
  | .popStore _ | .popDestruct => true
  | _ => false

/-- The slot `i` of `buffer` is the packet `i`. -/
structure PacketQueue where
  store : PacketStore
  inputIndex : ℕ
  outputIndex : ℕ
  process : Option ProcessPc
  work : WorkPc

namespace PacketQueue

open PacketStore Spsc

abbrev newPacket : ℕ := maxQueueSize
/-- The parameter of the callback. -/
abbrev argument : ℕ := maxQueueSize + 1
/-- `data` in `pop`, which is also what it returns. -/
abbrev popResult : ℕ := maxQueueSize + 2

/-- Two threads take turns; a completion arrives when `Process` waits for one. -/
inductive Act
  | arrive (clientID : ℤ) (bytes : Option (List UInt8))
  | process
  | work

variable (m : PacketQueue)

/-- `new T[MAX_QUEUE_SIZE]`. -/
def start : PacketQueue where
  store := ⟨.empty, fun o => if o < maxQueueSize then some .construct else none⟩
  inputIndex := 0
  outputIndex := 0
  process := none
  work := .emptyInput

def packet (o : ℕ) : Packet := (m.store.value o).getD default

/-- An operation that does not throw; after one that does, the program ends. -/
def perform (op : Op) : Option PacketQueue :=
  (m.store.exec op).map fun r => { m with store := r.1 }

/-- `Set(clientID)`, or `Set(clientID, wsabuf.buf, bytesTransferred)`. -/
def setOp (clientID : ℤ) : Option (List UInt8) → Op
  | none => .set newPacket clientID
  | some bytes => .setData newPacket clientID (.outside bytes) bytes.length false

def processStep : ProcessPc → Option (PacketQueue × List (Event Packet))
  | .set clientID bytes =>
    (m.perform (setOp clientID bytes)).map fun m => ({ m with process := some .loadInput }, [])
  | .loadInput => some ({ m with process := some (.loadOutput m.inputIndex) }, [])
  | .loadOutput currentInputIndex =>
    let nextIndex := (currentInputIndex + 1) % maxQueueSize
    if nextIndex = m.outputIndex then
      some ({ m with process := some .destruct }, [.refused (m.packet newPacket)])
    else some ({ m with process := some (.write currentInputIndex nextIndex) }, [])
  | .write currentInputIndex nextIndex =>
    (m.perform (.assign currentInputIndex newPacket false)).map fun m =>
      ({ m with process := some (.storeInput currentInputIndex nextIndex) }, [])
  | .storeInput _ nextIndex =>
    some ({ m with inputIndex := nextIndex, process := some .destruct },
      [.accepted (m.packet newPacket)])
  | .destruct => (m.perform (.destruct newPacket)).map fun m => ({ m with process := none }, [])

def workStep : WorkPc → Option (PacketQueue × List (Event Packet))
  | .emptyInput => some ({ m with work := .emptyOutput m.inputIndex }, [])
  | .emptyOutput input =>
    some ({ m with work := if input == m.outputIndex then .emptyInput else .frontOutput }, [])
  | .frontOutput => some ({ m with work := .frontCopy m.outputIndex }, [])
  | .frontCopy output =>
    (m.perform (.copyConstruct argument output false)).map fun m =>
      ({ m with work := .calling }, [.fronted (m.packet argument)])
  | .calling => (m.perform (.destruct argument)).map fun m => ({ m with work := .popOutput }, [])
  | .popOutput => some ({ m with work := .popInput m.outputIndex }, [])
  | .popInput currentOutputIndex =>
    if currentOutputIndex = m.inputIndex then
      (m.perform (.construct popResult)).map fun m =>
        ({ m with work := .popDestruct }, [.popped (m.packet popResult)])
    else some ({ m with work := .popCopy currentOutputIndex }, [])
  | .popCopy currentOutputIndex =>
    (m.perform (.copyConstruct popResult currentOutputIndex false)).map fun m =>
      ({ m with work := .popStore currentOutputIndex }, [])
  | .popStore currentOutputIndex =>
    some ({ m with
      outputIndex := (currentOutputIndex + 1) % maxQueueSize
      work := .popDestruct }, [.popped (m.packet popResult)])
  | .popDestruct =>
    (m.perform (.destruct popResult)).map fun m => ({ m with work := .emptyInput }, [])

def machine : Machine PacketQueue Act (Event Packet) where
  step m
    | .arrive clientID bytes =>
      match m.process with
      | none => (m.perform (.construct newPacket)).map fun m =>
          ({ m with process := some (.set clientID bytes) }, [])
      | some _ => none
    | .process => m.process.bind m.processStep
    | .work => m.workStep m.work

def slots (i : ℕ) : Packet := if i < maxQueueSize then m.packet i else default

def pushing (d : Packet) : ProcessPc → Option (PushPc Packet)
  | .set _ _ | .destruct => none
  | .loadInput => some (.loadInput d)
  | .loadOutput currentInputIndex => some (.loadOutput d currentInputIndex)
  | .write currentInputIndex nextIndex => some (.write d currentInputIndex nextIndex)
  | .storeInput currentInputIndex nextIndex => some (.storeInput d currentInputIndex nextIndex)

def consuming : WorkPc → WorkerPc Packet
  | .emptyInput | .popDestruct => .empty .loadInput
  | .emptyOutput input => .empty (.loadOutput input)
  | .frontOutput => .front .loadOutput
  | .frontCopy output => .front (.read output)
  | .calling => .calling (m.packet argument)
  | .popOutput => .pop .loadOutput
  | .popInput currentOutputIndex => .pop (.loadInput currentOutputIndex)
  | .popCopy currentOutputIndex => .pop (.read currentOutputIndex)
  | .popStore currentOutputIndex => .pop (.storeOutput currentOutputIndex (m.packet popResult))

def values : Spsc Packet where
  queue := ⟨m.inputIndex, m.outputIndex, m.slots⟩
  producer := m.process.bind (pushing (m.packet newPacket))
  consumer := m.consuming m.work

def alive (o : ℕ) : Bool :=
  decide (o < maxQueueSize) || o == newPacket && m.process.isSome || o == argument && m.work.calls ||
    o == popResult && m.work.pops

/-- The packets that should be there are, with blocks of their own. -/
structure Stands (m : PacketQueue) : Prop where
  sound : m.store.Sound
  alive : ∀ o, (m.store.value o).isSome = m.alive o

variable {m} {m' : PacketQueue} {s' : PacketStore} {op : Op} {pc : ProcessPc} {o i : ℕ}
  {p : Packet} {es : List (Event Packet)}

theorem alive_slot (h : i < maxQueueSize) : m.alive i = true := by
  unfold alive
  rw [decide_eq_true h]
  rfl

theorem alive_newPacket (m : PacketQueue) : m.alive newPacket = m.process.isSome := by
  simp [alive, newPacket, argument, popResult, maxQueueSize]

theorem alive_argument (m : PacketQueue) : m.alive argument = m.work.calls := by
  simp [alive, newPacket, argument, popResult, maxQueueSize]

theorem alive_popResult (m : PacketQueue) : m.alive popResult = m.work.pops := by
  simp [alive, newPacket, argument, popResult, maxQueueSize]

theorem alive_congr (hp : m'.process.isSome = m.process.isSome) (hc : m'.work.calls = m.work.calls)
    (hq : m'.work.pops = m.work.pops) (o : ℕ) : m'.alive o = m.alive o := by
  unfold alive
  rw [hp, hc, hq]

theorem alive_of_ne_newPacket (hw : m'.work = m.work) (ho : o ≠ newPacket) :
    m'.alive o = m.alive o := by
  unfold alive
  rw [hw, beq_eq_false_iff_ne.mpr ho, Bool.false_and, Bool.false_and]

theorem alive_of_ne_argument (hp : m'.process = m.process) (hq : m'.work.pops = m.work.pops)
    (ho : o ≠ argument) : m'.alive o = m.alive o := by
  unfold alive
  rw [hp, hq, beq_eq_false_iff_ne.mpr ho, Bool.false_and, Bool.false_and]

theorem alive_of_ne_popResult (hp : m'.process = m.process) (hc : m'.work.calls = m.work.calls)
    (ho : o ≠ popResult) : m'.alive o = m.alive o := by
  unfold alive
  rw [hp, hc, beq_eq_false_iff_ne.mpr ho, Bool.false_and, Bool.false_and]

theorem present (h : m.Stands) (ho : m.alive o = true) : (m.store.value o).isSome = true :=
  (h.alive o).trans ho

theorem absent (h : m.Stands) (ho : m.alive o = false) : m.store.value o = none :=
  Option.isSome_eq_false_iff.mp ((h.alive o).trans ho) |> Option.isNone_iff_eq_none.mp

theorem Stands.move (h : m.Stands) (hs : m'.store = m.store)
    (hp : m'.process.isSome = m.process.isSome) (hc : m'.work.calls = m.work.calls)
    (hq : m'.work.pops = m.work.pops) : m'.Stands := by
  refine ⟨hs ▸ h.sound, fun o => ?_⟩
  rw [hs, alive_congr hp hc hq]
  exact h.alive o

theorem Stands.change (h : m.Stands) (hs : s'.Sound) (target : ℕ)
    (hself : (s'.value target).isSome = m'.alive target)
    (hothers : ∀ o, o ≠ target → s'.value o = m.store.value o ∧ m'.alive o = m.alive o)
    (hstore : m'.store = s') : m'.Stands := by
  subst hstore
  refine ⟨hs, fun o => ?_⟩
  by_cases ho : o = target
  · rw [ho, hself]
  · obtain ⟨hvalue, halive⟩ := hothers o ho
    rw [hvalue, halive]
    exact h.alive o

theorem Stands.perform (h : m.Stands) (ha : m.store.Able op) :
    ∃ s', m.perform op = some { m with store := s' } ∧ s'.Sound ∧
      s'.value op.target = m.store.wanted op ∧
      ∀ o, o ≠ op.target → s'.value o = m.store.value o := by
  obtain ⟨s', he, hs, hself, hothers⟩ := exec_able h.sound ha
  refine ⟨s', ?_, hs, hself, hothers⟩
  unfold PacketQueue.perform
  rw [he]
  rfl

theorem slots_eq (h : ∀ i, i < maxQueueSize → m'.store.value i = m.store.value i) :
    m'.slots = m.slots := by
  funext i
  unfold slots packet
  split_ifs with hi
  · rw [h i hi]
  · rfl

theorem slots_of_lt (h : i < maxQueueSize) : m.slots i = m.packet i := if_pos h

theorem packet_eq (h : m'.store.value o = m.store.value o) : m'.packet o = m.packet o := by
  unfold packet
  rw [h]

theorem value_eq_packet (h : m.Stands) (ho : m.alive o = true) :
    m.store.value o = some (m.packet o) := by
  have hsome := h.alive o
  rw [ho] at hsome
  obtain ⟨p, hp⟩ := Option.isSome_iff_exists.mp hsome
  unfold packet
  rw [hp]
  rfl

theorem values_process (hin : m'.inputIndex = m.inputIndex) (hout : m'.outputIndex = m.outputIndex)
    (hwork : m'.work = m.work) (hvalue : ∀ o, o ≠ newPacket → m'.store.value o = m.store.value o) :
    m'.values =
      { m.values with producer := m'.process.bind (pushing (m'.packet newPacket)) } := by
  have hslots : m'.slots = m.slots := slots_eq fun i hi => hvalue i hi.ne
  have hargument := packet_eq (hvalue argument (by decide))
  have hresult := packet_eq (hvalue popResult (by decide))
  have hconsuming : m'.consuming m.work = m.consuming m.work := by
    unfold consuming
    rw [hargument, hresult]
  unfold values
  rw [hin, hout, hwork, hslots, hconsuming]

theorem values_work (hin : m'.inputIndex = m.inputIndex) (hout : m'.outputIndex = m.outputIndex)
    (hprocess : m'.process = m.process)
    (hvalue : ∀ o, o ≠ argument → o ≠ popResult → m'.store.value o = m.store.value o) :
    m'.values = { m.values with consumer := m'.consuming m'.work } := by
  have hslots : m'.slots = m.slots :=
    slots_eq fun i hi => hvalue i (Nat.lt_succ_of_lt hi).ne
      (Nat.lt_succ_of_lt (Nat.lt_succ_of_lt hi)).ne
  have hnew := packet_eq (hvalue newPacket (by decide) (by decide))
  unfold values
  rw [hin, hout, hprocess, hslots, hnew]

/-- The step is one of the queue of values, or does not show there. -/
def Simulates (m m' : PacketQueue) (out : List (Event Packet)) : Prop :=
  m'.values = m.values ∧ out = [] ∨ ∃ a, Spsc.machine.step m.values a = some (m'.values, out)

/-- The packet that is made of a completion. -/
def arrival (clientID : ℤ) : Option (List UInt8) → Packet
  | none => Packet.set default clientID
  | some bytes => Packet.setData default clientID bytes bytes.length

def arrived : Act → List Packet
  | .arrive clientID bytes => [arrival clientID bytes]
  | .process | .work => []

/-- The completion `Process` is at, unless it has tried to push it. -/
def pending (m : PacketQueue) : List Packet :=
  match m.process with
  | none | some .destruct => []
  | some (.set clientID bytes) => [arrival clientID bytes]
  | some _ => [m.packet newPacket]

def settled (es : List (Event Packet)) : List Packet :=
  es.filterMap fun | .accepted d | .refused d => some d | _ => none

/-- A packet that is still to be set was just constructed. -/
def Fresh (m : PacketQueue) : Prop :=
  ∀ clientID bytes, m.process = some (.set clientID bytes) → m.packet newPacket = default

theorem fresh_of (h : m.process.any ProcessPc.sets = false) : m.Fresh := by
  intro clientID bytes he
  rw [he] at h
  cases h

structure Takes (m : PacketQueue) (a : Act) (m' : PacketQueue) (out : List (Event Packet)) :
    Prop where
  stands : m'.Stands
  fresh : m'.Fresh
  simulates : Simulates m m' out
  pending : m.pending ++ arrived a = settled out ++ m'.pending

theorem target_setOp (clientID : ℤ) (bytes : Option (List UInt8)) :
    (setOp clientID bytes).target = newPacket := by
  cases bytes <;> rfl

theorem setOp_able (h : m.Stands) (hnew : m.alive newPacket = true) (clientID : ℤ)
    (bytes : Option (List UInt8)) : m.store.Able (setOp clientID bytes) := by
  cases bytes with
  | none => exact present h hnew
  | some bytes => exact ⟨present h hnew, ⟨bytes, rfl, le_rfl⟩, rfl⟩

theorem wanted_setOp (hvalue : m.store.value newPacket = some default) (clientID : ℤ)
    (bytes : Option (List UInt8)) :
    m.store.wanted (setOp clientID bytes) = some (arrival clientID bytes) := by
  cases bytes with
  | none =>
    show (m.store.value newPacket).map _ = _
    rw [hvalue]
    rfl
  | some bytes =>
    show (m.store.value newPacket).map _ = _
    rw [hvalue]
    rfl

theorem packet_of (h : m.store.value o = some p) : m.packet o = p := by
  unfold packet
  rw [h]
  rfl

theorem arrive_step (h : m.Stands) (hp : m.process = none) (clientID : ℤ)
    (bytes : Option (List UInt8)) :
    ∃ m' out, machine.step m (.arrive clientID bytes) = some (m', out) ∧
      Takes m (.arrive clientID bytes) m' out := by
  have hnew : m.alive newPacket = false := by
    rw [alive_newPacket, hp]
    rfl
  have hable : m.store.Able (.construct newPacket) := absent h hnew
  obtain ⟨s', he, hs, hself, hothers⟩ := h.perform hable
  let m' : PacketQueue := { m with store := s', process := some (.set clientID bytes) }
  have hstep : machine.step m (.arrive clientID bytes) = some (m', []) := by
    simp only [machine, hp]
    rw [he]
    rfl
  refine ⟨m', [], hstep, ?_, ?_, .inl ⟨?_, rfl⟩, ?_⟩
  · apply h.change hs newPacket
    · rw [show s'.value newPacket = _ from hself]
      exact (alive_newPacket m').symm
    · intro o ho
      exact ⟨hothers o ho, alive_of_ne_newPacket rfl ho⟩
    · rfl
  · intro _ _ _
    exact packet_of hself
  · have hvalues : m'.values = { m.values with producer := none } :=
      values_process rfl rfl rfl hothers
    have hproducer : m.values.producer = none := by
      unfold values
      rw [hp]
      rfl
    rw [hvalues, ← hproducer]
  · unfold pending
    rw [hp]
    rfl

/-- A step of `Process` that makes no packet and destroys none. -/
theorem takes_process {out : List (Event Packet)} (h : m.Stands) (hp : m.process = some pc)
    (hstore : m'.store = m.store) (hwork : m'.work = m.work) (hp' : m'.process.isSome = true)
    (hfresh : m'.process.any ProcessPc.sets = false) (hsim : Simulates m m' out)
    (hpending : m.pending = settled out ++ m'.pending) : Takes m .process m' out := by
  refine ⟨h.move hstore ?_ (congrArg WorkPc.calls hwork) (congrArg WorkPc.pops hwork),
    fresh_of hfresh, hsim, ?_⟩
  · rw [hp, hp']
    rfl
  · rw [← hpending]
    exact List.append_nil _

theorem producer_eq (hp : m.process = some pc) :
    m.values.producer = pushing (m.packet newPacket) pc := by
  unfold values
  rw [hp]
  rfl

theorem alive_of_process (hp : m.process = some pc) : m.alive newPacket = true := by
  rw [alive_newPacket, hp]
  rfl

theorem set_step {clientID : ℤ} {bytes : Option (List UInt8)} (h : m.Stands) (hf : m.Fresh)
    (hp : m.process = some (.set clientID bytes)) :
    ∃ m' out, m.processStep (.set clientID bytes) = some (m', out) ∧ Takes m .process m' out := by
  have hnew := alive_of_process hp
  have hdefault : m.store.value newPacket = some default := by
    rw [value_eq_packet h hnew, hf clientID bytes hp]
  obtain ⟨s', he, hs, hself, hothers⟩ := h.perform (setOp_able h hnew clientID bytes)
  rw [target_setOp, wanted_setOp hdefault] at hself
  rw [target_setOp] at hothers
  let m' : PacketQueue := { m with store := s', process := some .loadInput }
  have hvalue : m'.packet newPacket = arrival clientID bytes := packet_of hself
  have hstep : m.processStep (.set clientID bytes) = some (m', []) := by
    unfold processStep
    dsimp only
    rw [he]
    rfl
  refine ⟨m', [], hstep, ?_, fresh_of rfl, .inr ⟨.call (arrival clientID bytes), ?_⟩, ?_⟩
  · apply h.change hs newPacket
    · rw [hself]
      exact (alive_newPacket m').symm
    · intro o ho
      have hp' : m'.process.isSome = m.process.isSome := by
        rw [hp]
        rfl
      exact ⟨hothers o ho, alive_congr hp' rfl rfl o⟩
    · rfl
  · have hvalues : m'.values =
        { m.values with producer := some (.loadInput (m'.packet newPacket)) } :=
      values_process rfl rfl rfl hothers
    rw [hvalues, hvalue]
    simp only [Spsc.machine, producer_eq hp, pushing]
  · have hpending : m.pending = [arrival clientID bytes] := by
      unfold pending
      rw [hp]
    rw [hpending, ← hvalue]
    rfl

theorem loadInput_step (h : m.Stands) (hp : m.process = some .loadInput) :
    ∃ m' out, m.processStep .loadInput = some (m', out) ∧ Takes m .process m' out := by
  let m' : PacketQueue := { m with process := some (.loadOutput m.inputIndex) }
  refine ⟨m', [], rfl, takes_process h hp rfl rfl rfl rfl (.inr ⟨.producer, ?_⟩) ?_⟩
  · have hvalues : m'.values =
        { m.values with producer := some (.loadOutput (m.packet newPacket) m.inputIndex) } :=
      values_process rfl rfl rfl fun _ _ => rfl
    rw [hvalues]
    simp only [Spsc.machine, producer_eq hp, pushing, pushStep]
    rfl
  · unfold pending
    rw [hp]
    rfl

theorem loadOutput_step {cur : ℕ} (h : m.Stands) (hp : m.process = some (.loadOutput cur)) :
    ∃ m' out, m.processStep (.loadOutput cur) = some (m', out) ∧ Takes m .process m' out := by
  let d := m.packet newPacket
  have hproducer : m.values.producer = some (.loadOutput d cur) := producer_eq hp
  by_cases hfull : (cur + 1) % maxQueueSize = m.outputIndex
  · let m' : PacketQueue := { m with process := some .destruct }
    have hstep : m.processStep (.loadOutput cur) = some (m', [.refused d]) := if_pos hfull
    refine ⟨m', _, hstep, takes_process h hp rfl rfl rfl rfl (.inr ⟨.producer, ?_⟩) ?_⟩
    · have hvalues : m'.values = { m.values with producer := none } :=
        values_process rfl rfl rfl fun _ _ => rfl
      have hfull' : (cur + 1) % maxQueueSize = m.values.queue.outputIndex := hfull
      rw [hvalues]
      simp only [Spsc.machine, hproducer, pushStep, if_pos hfull']
      rfl
    · unfold pending
      rw [hp]
      rfl
  · let m' : PacketQueue :=
      { m with process := some (.write cur ((cur + 1) % maxQueueSize)) }
    have hstep : m.processStep (.loadOutput cur) = some (m', []) := if_neg hfull
    refine ⟨m', _, hstep, takes_process h hp rfl rfl rfl rfl (.inr ⟨.producer, ?_⟩) ?_⟩
    · have hvalues : m'.values =
          { m.values with producer := some (.write d cur ((cur + 1) % maxQueueSize)) } :=
        values_process rfl rfl rfl fun _ _ => rfl
      have hfull' : ¬(cur + 1) % maxQueueSize = m.values.queue.outputIndex := hfull
      rw [hvalues]
      simp only [Spsc.machine, hproducer, pushStep, if_neg hfull']
    · unfold pending
      rw [hp]
      rfl

theorem values_write {cur : ℕ} {d : Packet} (hin : m'.inputIndex = m.inputIndex)
    (hout : m'.outputIndex = m.outputIndex) (hwork : m'.work = m.work) (hcur : cur < maxQueueSize)
    (hslot : m'.packet cur = d) (hothers : ∀ o, o ≠ cur → m'.store.value o = m.store.value o) :
    m'.values = ⟨⟨m.inputIndex, m.outputIndex, Function.update m.slots cur d⟩,
      m'.process.bind (pushing (m.packet newPacket)), m.consuming m.work⟩ := by
  -- a slot is written: no packet of the worker is touched
  have hslots : m'.slots = Function.update m.slots cur d := by
    funext i
    by_cases hic : i = cur
    · rw [hic, Function.update_self, slots_of_lt hcur, hslot]
    · rw [Function.update_of_ne hic]
      unfold slots
      rw [packet_eq (hothers i hic)]
  have hnew : m'.packet newPacket = m.packet newPacket := packet_eq (hothers newPacket hcur.ne')
  have hargument : m'.packet argument = m.packet argument :=
    packet_eq (hothers argument (Nat.lt_succ_of_lt hcur).ne')
  have hresult : m'.packet popResult = m.packet popResult :=
    packet_eq (hothers popResult (Nat.lt_succ_of_lt (Nat.lt_succ_of_lt hcur)).ne')
  have hconsuming : m'.consuming m.work = m.consuming m.work := by
    unfold consuming
    rw [hargument, hresult]
  unfold values
  rw [hin, hout, hwork, hslots, hnew, hconsuming]

theorem write_step {cur next : ℕ} (h : m.Stands) (hi : Spsc.Inv es m.values)
    (hp : m.process = some (.write cur next)) :
    ∃ m' out, m.processStep (.write cur next) = some (m', out) ∧ Takes m .process m' out := by
  let d := m.packet newPacket
  have hproducer : m.values.producer = some (.write d cur next) := producer_eq hp
  -- the slot is the one `inputIndex` still names, so it is one of the array's
  have hcur : cur < maxQueueSize := by
    have hknows := hi.shared.producer
    rw [hproducer] at hknows
    have hrange := hi.shared.inRange.1
    rwa [← hknows.1] at hrange
  have hnew := alive_of_process hp
  have hable : m.store.Able (.assign cur newPacket false) :=
    ⟨present h (alive_slot hcur), present h hnew, rfl⟩
  obtain ⟨s', he, hs, hself, hothers⟩ := h.perform hable
  let m' : PacketQueue := { m with store := s', process := some (.storeInput cur next) }
  have hnewValue : s'.value cur = some d := hself.trans (value_eq_packet h hnew)
  have hstep : m.processStep (.write cur next) = some (m', []) := by
    unfold processStep
    dsimp only
    rw [he]
    rfl
  refine ⟨m', [], hstep, ?_, fresh_of rfl, .inr ⟨.producer, ?_⟩, ?_⟩
  · have hp' : m'.process.isSome = m.process.isSome := by
      rw [hp]
      rfl
    apply h.change hs cur
    · rw [hnewValue]
      exact (alive_slot hcur).symm
    · intro o ho
      exact ⟨hothers o ho, alive_congr hp' rfl rfl o⟩
    · rfl
  · have hvalues : m'.values = ⟨⟨m.inputIndex, m.outputIndex, Function.update m.slots cur d⟩,
        some (.storeInput d cur next), m.consuming m.work⟩ :=
      values_write rfl rfl rfl hcur (packet_of hnewValue) hothers
    rw [hvalues]
    simp only [Spsc.machine, hproducer, pushStep]
    rfl
  · have hsame : m'.packet newPacket = d := packet_eq (hothers newPacket hcur.ne')
    unfold pending
    rw [hp]
    change [d] ++ [] = [] ++ [m'.packet newPacket]
    rw [hsame]
    rfl

theorem storeInput_step {cur next : ℕ} (h : m.Stands)
    (hp : m.process = some (.storeInput cur next)) :
    ∃ m' out, m.processStep (.storeInput cur next) = some (m', out) ∧ Takes m .process m' out := by
  let m' : PacketQueue := { m with inputIndex := next, process := some .destruct }
  refine ⟨m', _, rfl, takes_process h hp rfl rfl rfl rfl (.inr ⟨.producer, ?_⟩) ?_⟩
  · simp only [Spsc.machine, producer_eq hp, pushing, pushStep]
    rfl
  · unfold pending
    rw [hp]
    rfl

theorem destruct_step (h : m.Stands) (hp : m.process = some .destruct) :
    ∃ m' out, m.processStep .destruct = some (m', out) ∧ Takes m .process m' out := by
  have hable : m.store.Able (.destruct newPacket) := present h (alive_of_process hp)
  obtain ⟨s', he, hs, hself, hothers⟩ := h.perform hable
  let m' : PacketQueue := { m with store := s', process := none }
  have hstep : m.processStep .destruct = some (m', []) := by
    unfold processStep
    dsimp only
    rw [he]
    rfl
  refine ⟨m', [], hstep, ?_, fresh_of rfl, .inl ⟨?_, rfl⟩, ?_⟩
  · apply h.change hs newPacket
    · rw [show s'.value newPacket = _ from hself]
      exact (alive_newPacket m').symm
    · intro o ho
      exact ⟨hothers o ho, alive_of_ne_newPacket rfl ho⟩
    · rfl
  · have hvalues : m'.values = { m.values with producer := none } :=
      values_process rfl rfl rfl hothers
    have hnone : m.values.producer = none := producer_eq hp
    rw [hvalues, ← hnone]
  · unfold pending
    rw [hp]
    rfl

theorem process_step (h : m.Stands) (hf : m.Fresh) (hi : Spsc.Inv es m.values)
    (hp : m.process = some pc) :
    ∃ m' out, m.processStep pc = some (m', out) ∧ Takes m .process m' out := by
  cases pc with
  | set clientID bytes => exact set_step h hf hp
  | loadInput => exact loadInput_step h hp
  | loadOutput cur => exact loadOutput_step h hp
  | write cur next => exact write_step h hi hp
  | storeInput cur next => exact storeInput_step h hp
  | destruct => exact destruct_step h hp

theorem takes_work {out : List (Event Packet)} (hs : m'.Stands) (hf : m.Fresh)
    (hprocess : m'.process = m.process)
    (hvalue : m'.store.value newPacket = m.store.value newPacket) (hout : settled out = [])
    (hsim : Simulates m m' out) : Takes m .work m' out := by
  refine ⟨hs, ?_, hsim, ?_⟩
  · intro clientID bytes he
    rw [packet_eq hvalue]
    exact hf clientID bytes (hprocess.symm.trans he)
  · unfold pending
    rw [hout, hprocess, packet_eq hvalue]
    exact List.append_nil _

theorem stands_argument (h : m.Stands) (hs : m'.store.Sound) (hprocess : m'.process = m.process)
    (hpops : m'.work.pops = m.work.pops)
    (hself : (m'.store.value argument).isSome = m'.work.calls)
    (hothers : ∀ o, o ≠ argument → m'.store.value o = m.store.value o) : m'.Stands := by
  apply h.change hs argument
  · rw [hself]
    exact (alive_argument m').symm
  · intro o ho
    exact ⟨hothers o ho, alive_of_ne_argument hprocess hpops ho⟩
  · rfl

theorem stands_popResult (h : m.Stands) (hs : m'.store.Sound) (hprocess : m'.process = m.process)
    (hcalls : m'.work.calls = m.work.calls)
    (hself : (m'.store.value popResult).isSome = m'.work.pops)
    (hothers : ∀ o, o ≠ popResult → m'.store.value o = m.store.value o) : m'.Stands := by
  apply h.change hs popResult
  · rw [hself]
    exact (alive_popResult m').symm
  · intro o ho
    exact ⟨hothers o ho, alive_of_ne_popResult hprocess hcalls ho⟩
  · rfl

theorem copy_slot (h : m.Stands) {target source : ℕ} (htarget : m.alive target = false)
    (hsource : source < maxQueueSize) :
    ∃ s', m.perform (.copyConstruct target source false) = some { m with store := s' } ∧ s'.Sound ∧
      s'.value target = some (m.slots source) ∧ ∀ o, o ≠ target → s'.value o = m.store.value o := by
  have halive := alive_slot (m := m) hsource
  have hable : m.store.Able (.copyConstruct target source false) :=
    ⟨absent h htarget, present h halive, rfl⟩
  obtain ⟨s', he, hs, hself, hothers⟩ := h.perform hable
  refine ⟨s', he, hs, hself.trans ?_, hothers⟩
  rw [slots_of_lt hsource]
  exact value_eq_packet h halive

theorem consumer_eq {work : WorkPc} (hw : m.work = work) :
    m.values.consumer = m.consuming work := by
  rw [← hw]
  rfl

/-- A step of the worker that makes no packet and destroys none. -/
theorem index_step {work work' : WorkPc} {outputIndex : ℕ} {out : List (Event Packet)}
    (h : m.Stands) (hf : m.Fresh) (hw : m.work = work)
    (hstep : m.workStep work = some ({ m with outputIndex, work := work' }, out))
    (hcalls : work'.calls = work.calls) (hpops : work'.pops = work.pops) (hout : settled out = [])
    (hsim : Spsc.machine.step m.values .consumer =
      some (values { m with outputIndex, work := work' }, out)) :
    ∃ m' out, m.workStep work = some (m', out) ∧ Takes m .work m' out := by
  let m' : PacketQueue := { m with outputIndex, work := work' }
  have hcalls' : m'.work.calls = m.work.calls := by rw [hw]; exact hcalls
  have hpops' : m'.work.pops = m.work.pops := by rw [hw]; exact hpops
  have hs : m'.Stands := h.move rfl rfl hcalls' hpops'
  exact ⟨m', out, hstep, takes_work hs hf rfl rfl hout (.inr ⟨.consumer, hsim⟩)⟩

theorem emptyInput_step (h : m.Stands) (hf : m.Fresh) (hw : m.work = .emptyInput) :
    ∃ m' out, m.workStep .emptyInput = some (m', out) ∧ Takes m .work m' out := by
  have hstep : m.workStep .emptyInput =
      some ({ m with work := .emptyOutput m.inputIndex }, []) := rfl
  apply index_step h hf hw hstep rfl rfl rfl
  simp only [Spsc.machine, consumer_eq hw, consuming, workerStep, emptyStep]
  rfl

theorem emptyOutput_step {input : ℕ} (h : m.Stands) (hf : m.Fresh)
    (hw : m.work = .emptyOutput input) :
    ∃ m' out, m.workStep (.emptyOutput input) = some (m', out) ∧ Takes m .work m' out := by
  have hout : m.values.queue.outputIndex = m.outputIndex := rfl
  cases hempty : input == m.outputIndex with
  | true =>
    have hstep : m.workStep (.emptyOutput input) = some ({ m with work := .emptyInput }, []) := by
      simp only [workStep, hempty]
      rfl
    apply index_step h hf hw hstep rfl rfl rfl
    simp only [Spsc.machine, consumer_eq hw, consuming, workerStep, emptyStep, hout, hempty]
    rfl
  | false =>
    have hstep : m.workStep (.emptyOutput input) = some ({ m with work := .frontOutput }, []) := by
      simp only [workStep, hempty]
      rfl
    apply index_step h hf hw hstep rfl rfl rfl
    simp only [Spsc.machine, consumer_eq hw, consuming, workerStep, emptyStep, hout, hempty]
    rfl

theorem frontOutput_step (h : m.Stands) (hf : m.Fresh) (hw : m.work = .frontOutput) :
    ∃ m' out, m.workStep .frontOutput = some (m', out) ∧ Takes m .work m' out := by
  have hstep : m.workStep .frontOutput =
      some ({ m with work := .frontCopy m.outputIndex }, []) := rfl
  apply index_step h hf hw hstep rfl rfl rfl
  simp only [Spsc.machine, consumer_eq hw, consuming, workerStep, frontStep]
  rfl

theorem frontCopy_step {output : ℕ} (h : m.Stands) (hf : m.Fresh) (hi : Spsc.Inv es m.values)
    (hw : m.work = .frontCopy output) :
    ∃ m' out, m.workStep (.frontCopy output) = some (m', out) ∧ Takes m .work m' out := by
  have hconsumer : m.values.consumer = .front (.read output) := consumer_eq hw
  have hknows := hi.shared.consumer
  rw [hconsumer] at hknows
  have hlt : output < maxQueueSize := hknows.2.trans_lt hi.shared.inRange.2
  have hfree : m.alive argument = false := by
    rw [alive_argument, hw]
    rfl
  obtain ⟨s', he, hs, hself, hothers⟩ := copy_slot h hfree hlt
  let m' : PacketQueue := { m with store := s', work := .calling }
  have hpops : m'.work.pops = m.work.pops := by rw [hw]; rfl
  have hstep : m.workStep (.frontCopy output) = some (m', [.fronted (m'.packet argument)]) := by
    unfold workStep
    dsimp only
    rw [he]
    rfl
  have hs' : m'.Stands := stands_argument h hs rfl hpops (congrArg Option.isSome hself) hothers
  refine ⟨m', _, hstep, takes_work hs' hf rfl (hothers newPacket (by decide)) rfl
    (.inr ⟨.consumer, ?_⟩)⟩
  have hvalues : m'.values = { m.values with consumer := .calling (m'.packet argument) } :=
    values_work rfl rfl rfl fun o ho _ => hothers o ho
  have hpacket : m'.packet argument = m.slots output := packet_of hself
  rw [hvalues, hpacket]
  simp only [Spsc.machine, hconsumer, workerStep, frontStep]
  rfl

theorem calling_step (h : m.Stands) (hf : m.Fresh) (hw : m.work = .calling) :
    ∃ m' out, m.workStep .calling = some (m', out) ∧ Takes m .work m' out := by
  have hthere : m.alive argument = true := by
    rw [alive_argument, hw]
    rfl
  have hable : m.store.Able (.destruct argument) := present h hthere
  obtain ⟨s', he, hs, hself, hothers⟩ := h.perform hable
  let m' : PacketQueue := { m with store := s', work := .popOutput }
  have hpops : m'.work.pops = m.work.pops := by rw [hw]; rfl
  have hstep : m.workStep .calling = some (m', []) := by
    unfold workStep
    dsimp only
    rw [he]
    rfl
  have hs' : m'.Stands := stands_argument h hs rfl hpops (congrArg Option.isSome hself) hothers
  refine ⟨m', _, hstep, takes_work hs' hf rfl (hothers newPacket (by decide)) rfl
    (.inr ⟨.consumer, ?_⟩)⟩
  have hvalues : m'.values = { m.values with consumer := .pop .loadOutput } :=
    values_work rfl rfl rfl fun o ho _ => hothers o ho
  rw [hvalues]
  simp only [Spsc.machine, consumer_eq hw, consuming, workerStep]
  rfl

theorem popOutput_step (h : m.Stands) (hf : m.Fresh) (hw : m.work = .popOutput) :
    ∃ m' out, m.workStep .popOutput = some (m', out) ∧ Takes m .work m' out := by
  have hstep : m.workStep .popOutput = some ({ m with work := .popInput m.outputIndex }, []) := rfl
  apply index_step h hf hw hstep rfl rfl rfl
  simp only [Spsc.machine, consumer_eq hw, consuming, workerStep, popStep]
  rfl

theorem popInput_step {cur : ℕ} (h : m.Stands) (hf : m.Fresh) (hi : Spsc.Inv es m.values)
    (hw : m.work = .popInput cur) :
    ∃ m' out, m.workStep (.popInput cur) = some (m', out) ∧ Takes m .work m' out := by
  have hconsumer : m.values.consumer = .pop (.loadInput cur) := consumer_eq hw
  have hknows := hi.shared.consumer
  rw [hconsumer] at hknows
  -- the worker pops only what it has just handed over, so the queue is not empty here
  have hne : cur ≠ m.inputIndex := hknows.2.trans_ne hknows.1
  have hstep : m.workStep (.popInput cur) = some ({ m with work := .popCopy cur }, []) :=
    if_neg hne
  apply index_step h hf hw hstep rfl rfl rfl
  have hne' : ¬cur = m.values.queue.inputIndex := hne
  simp only [Spsc.machine, hconsumer, workerStep, popStep, if_neg hne']
  rfl

theorem popCopy_step {cur : ℕ} (h : m.Stands) (hf : m.Fresh) (hi : Spsc.Inv es m.values)
    (hw : m.work = .popCopy cur) :
    ∃ m' out, m.workStep (.popCopy cur) = some (m', out) ∧ Takes m .work m' out := by
  have hconsumer : m.values.consumer = .pop (.read cur) := consumer_eq hw
  have hknows := hi.shared.consumer
  rw [hconsumer] at hknows
  have hlt : cur < maxQueueSize := hknows.2.trans_lt hi.shared.inRange.2
  have hfree : m.alive popResult = false := by
    rw [alive_popResult, hw]
    rfl
  obtain ⟨s', he, hs, hself, hothers⟩ := copy_slot h hfree hlt
  let m' : PacketQueue := { m with store := s', work := .popStore cur }
  have hcalls : m'.work.calls = m.work.calls := by rw [hw]; rfl
  have hstep : m.workStep (.popCopy cur) = some (m', []) := by
    unfold workStep
    dsimp only
    rw [he]
    rfl
  have hs' : m'.Stands := stands_popResult h hs rfl hcalls (congrArg Option.isSome hself) hothers
  refine ⟨m', _, hstep, takes_work hs' hf rfl (hothers newPacket (by decide)) rfl
    (.inr ⟨.consumer, ?_⟩)⟩
  have hvalues : m'.values =
      { m.values with consumer := .pop (.storeOutput cur (m'.packet popResult)) } :=
    values_work rfl rfl rfl fun o _ ho => hothers o ho
  have hpacket : m'.packet popResult = m.slots cur := packet_of hself
  rw [hvalues, hpacket]
  simp only [Spsc.machine, hconsumer, workerStep, popStep]
  rfl

theorem popStore_step {cur : ℕ} (h : m.Stands) (hf : m.Fresh) (hw : m.work = .popStore cur) :
    ∃ m' out, m.workStep (.popStore cur) = some (m', out) ∧ Takes m .work m' out := by
  have hstep : m.workStep (.popStore cur) =
      some ({ m with outputIndex := (cur + 1) % maxQueueSize, work := .popDestruct },
        [.popped (m.packet popResult)]) := rfl
  apply index_step h hf hw hstep rfl rfl rfl
  simp only [Spsc.machine, consumer_eq hw, consuming, workerStep, popStep]
  rfl

theorem popDestruct_step (h : m.Stands) (hf : m.Fresh) (hw : m.work = .popDestruct) :
    ∃ m' out, m.workStep .popDestruct = some (m', out) ∧ Takes m .work m' out := by
  have hthere : m.alive popResult = true := by
    rw [alive_popResult, hw]
    rfl
  have hable : m.store.Able (.destruct popResult) := present h hthere
  obtain ⟨s', he, hs, hself, hothers⟩ := h.perform hable
  let m' : PacketQueue := { m with store := s', work := .emptyInput }
  have hcalls : m'.work.calls = m.work.calls := by rw [hw]; rfl
  have hstep : m.workStep .popDestruct = some (m', []) := by
    unfold workStep
    dsimp only
    rw [he]
    rfl
  have hs' : m'.Stands := stands_popResult h hs rfl hcalls (congrArg Option.isSome hself) hothers
  refine ⟨m', _, hstep, takes_work hs' hf rfl (hothers newPacket (by decide)) rfl
    (.inl ⟨?_, rfl⟩)⟩
  have hvalues : m'.values = { m.values with consumer := .empty .loadInput } :=
    values_work rfl rfl rfl fun o _ ho => hothers o ho
  have hsame : m.values.consumer = .empty .loadInput := consumer_eq hw
  rw [hvalues, ← hsame]

theorem work_step (h : m.Stands) (hf : m.Fresh) (hi : Spsc.Inv es m.values) :
    ∃ m' out, m.workStep m.work = some (m', out) ∧ Takes m .work m' out := by
  cases hw : m.work with
  | emptyInput => exact emptyInput_step h hf hw
  | emptyOutput input => exact emptyOutput_step h hf hw
  | frontOutput => exact frontOutput_step h hf hw
  | frontCopy output => exact frontCopy_step h hf hi hw
  | calling => exact calling_step h hf hw
  | popOutput => exact popOutput_step h hf hw
  | popInput cur => exact popInput_step h hf hi hw
  | popCopy cur => exact popCopy_step h hf hi hw
  | popStore cur => exact popStore_step h hf hw
  | popDestruct => exact popDestruct_step h hf hw

structure Inv (as : List Act) (es : List (Event Packet)) (m : PacketQueue) : Prop where
  stands : m.Stands
  fresh : m.Fresh
  fifo : Spsc.Inv es m.values
  arrived : as.flatMap arrived = settled es ++ m.pending

theorem settled_append (es es' : List (Event Packet)) :
    settled (es ++ es') = settled es ++ settled es' := List.filterMap_append

theorem sound_start : start.store.Sound := by
  have hnone (o : ℕ) : start.store.owns o = none := by
    unfold PacketStore.owns start
    dsimp only
    split_ifs <;> rfl
  refine ⟨Blocks.ledger_empty, ⟨?_, ?_⟩, List.nodup_nil, nofun⟩
  · intro o b n ho
    rw [hnone] at ho
    cases ho
  · intro o o' b n k ho
    rw [hnone] at ho
    cases ho

theorem inv_start : Inv [] [] start := by
  have hvalue (o : ℕ) : start.store.value o = if o < maxQueueSize then some default else none := by
    unfold PacketStore.value start
    dsimp only
    split_ifs <;> rfl
  have hslots : start.slots = fun _ => default := by
    funext i
    unfold slots packet
    rw [hvalue]
    split_ifs <;> rfl
  have hvalues : start.values = Spsc.start fun _ => default := by
    unfold values
    rw [hslots]
    rfl
  refine ⟨⟨sound_start, fun o => ?_⟩, nofun, hvalues ▸ Spsc.inv_start _, rfl⟩
  rw [hvalue]
  by_cases ho : o < maxQueueSize
  · rw [alive_slot ho, if_pos ho]
    rfl
  · have halive : start.alive o = false := by simp [alive, start, WorkPc.calls, WorkPc.pops, ho]
    rw [halive, if_neg ho]
    rfl

theorem Simulates.inv {out : List (Event Packet)} (h : Simulates m m' out)
    (hi : Spsc.Inv es m.values) : Spsc.Inv (es ++ out) m'.values := by
  rcases h with ⟨hvalues, rfl⟩ | ⟨a, hs⟩
  · rw [hvalues, List.append_nil]
    exact hi
  · exact Spsc.inv_step hi hs

variable {as : List Act} {out : List (Event Packet)} {a : Act}

theorem Takes.inv (h : Takes m a m' out) (hi : Inv as es m) : Inv (as ++ [a]) (es ++ out) m' := by
  refine ⟨h.stands, h.fresh, h.simulates.inv hi.fifo, ?_⟩
  rw [List.flatMap_append, List.flatMap_singleton, hi.arrived, List.append_assoc, h.pending,
    settled_append, List.append_assoc]

theorem step_takes (hi : Inv as es m) (hs : machine.step m a = some (m', out)) :
    Takes m a m' out := by
  have hdone {r : PacketQueue × List (Event Packet)} (hr : machine.step m a = some r)
      (ht : Takes m a r.1 r.2) : Takes m a m' out := by
    rw [hs] at hr
    obtain rfl := Option.some.inj hr
    exact ht
  cases a with
  | arrive clientID bytes =>
    cases hp : m.process with
    | none =>
      obtain ⟨m₁, out₁, hstep, ht⟩ := arrive_step hi.stands hp clientID bytes
      exact hdone hstep ht
    | some pc => simp [machine, hp] at hs
  | process =>
    cases hp : m.process with
    | none => simp [machine, hp] at hs
    | some pc =>
      obtain ⟨m₁, out₁, hstep, ht⟩ := process_step hi.stands hi.fresh hi.fifo hp
      have hmachine : machine.step m .process = some (m₁, out₁) := by
        simp only [machine, hp]
        exact hstep
      exact hdone hmachine ht
  | work =>
    obtain ⟨m₁, out₁, hstep, ht⟩ := work_step hi.stands hi.fresh hi.fifo
    exact hdone hstep ht

/-- The packets a callback is handed are those that arrived, in their order and without the ones
refused; every packet has its own block or none, no block is released twice or lost, and neither
thread reaches for a packet that is not there. -/
structure Transfers (as : List Act) (es : List (Event Packet)) (m : PacketQueue) : Prop where
  settled : settled es <+: as.flatMap PacketQueue.arrived
  fronted : fronted es <+: accepted es
  owned : m.store.heap.Owned m.store.owns
  once : m.store.heap.released.Nodup
  accounted : m.store.heap.Accounted m.store.owns
  few : (List.range m.store.heap.allocated).countP m.store.heap.live ≤
    maxQueueSize + m.process.isSome.toNat + m.work.calls.toNat + m.work.pops.toNat
  moves : (m.process.isSome = true → (machine.step m .process).isSome = true) ∧
    (machine.step m .work).isSome = true

theorem countP_alive (m : PacketQueue) : (List.range (maxQueueSize + 3)).countP m.alive =
    maxQueueSize + m.process.isSome.toNat + m.work.calls.toNat + m.work.pops.toNat := by
  have hslots : (List.range maxQueueSize).countP m.alive = maxQueueSize := by
    rw [List.countP_eq_length.mpr, List.length_range]
    intro i hi
    exact alive_slot (List.mem_range.mp hi)
  have hone (b : Bool) : (if b = true then 1 else 0) = b.toNat := by cases b <;> rfl
  rw [List.range_succ, List.range_succ, List.range_succ, List.countP_append, List.countP_append,
    List.countP_append, hslots, List.countP_singleton, List.countP_singleton, List.countP_singleton,
    hone, hone, hone]
  rw [show maxQueueSize = newPacket from rfl, alive_newPacket]
  rw [show newPacket + 1 = argument from rfl, alive_argument]
  rw [show newPacket + 2 = popResult from rfl, alive_popResult]

theorem Stands.few (h : m.Stands) :
    (List.range m.store.heap.allocated).countP m.store.heap.live ≤
      maxQueueSize + m.process.isSome.toNat + m.work.calls.toNat + m.work.pops.toNat := by
  rw [← countP_alive]
  apply h.sound.accounted.countP_le
  intro o ho
  have halive : m.alive o = true := by
    rw [← h.alive o, isSome_value]
    by_contra hnone
    apply ho
    unfold PacketStore.owns
    rw [Option.not_isSome_iff_eq_none.mp hnone]
    rfl
  refine ⟨?_, halive⟩
  by_contra hlt
  have hfalse : m.alive o = false := by
    have h0 : ¬o < maxQueueSize := by omega
    have h1 : o ≠ newPacket := by unfold newPacket; omega
    have h2 : o ≠ argument := by unfold argument; omega
    have h3 : o ≠ popResult := by unfold popResult; omega
    unfold PacketQueue.alive
    rw [decide_eq_false h0, beq_eq_false_iff_ne.mpr h1, beq_eq_false_iff_ne.mpr h2,
      beq_eq_false_iff_ne.mpr h3]
    rfl
  rw [halive] at hfalse
  cases hfalse

theorem Inv.transfers (h : Inv as es m) : Transfers as es m where
  settled := ⟨_, h.arrived.symm⟩
  fronted := by
    rw [h.fifo.fronts, h.fifo.conserved]
    apply (List.prefix_append_right_inj _).mpr
    split_ifs
    · exact List.take_prefix _ _
    · exact List.nil_prefix
  owned := h.stands.sound.owned
  once := h.stands.sound.once
  accounted := h.stands.sound.accounted
  few := h.stands.few
  moves := by
    constructor
    · intro hp
      obtain ⟨pc, hp⟩ := Option.isSome_iff_exists.mp hp
      obtain ⟨m', out, hstep, -⟩ := process_step h.stands h.fresh h.fifo hp
      simp only [machine, hp, Option.bind_some, hstep, Option.isSome_some]
    · obtain ⟨m', out, hstep, -⟩ := work_step h.stands h.fresh h.fifo
      simp only [machine, hstep, Option.isSome_some]

/-- Under every interleaving of `Process` and a worker, in memory. -/
theorem transfers_of_run (hr : machine.run start as = some (m, es)) : Transfers as es m := by
  refine Inv.transfers (machine.run_induction (P := Inv) inv_start ?_ hr)
  intro bs fs m₁ a m₂ out _ hi hs
  exact (step_takes hi hs).inv hi

/-- A packet is pushed; the worker hands it over while the next completion is copied. -/
def overlapping : List Act :=
  [.arrive 7 (some [1, 2]), .process, .process, .process, .process, .process, .process, .work, .work,
    .work, .arrive 8 none, .work, .process, .work]

theorem transfers_of_run_overlapping : ∃ m es, machine.run start overlapping = some (m, es) ∧
    fronted es = [⟨7, some [1, 2], 2⟩] ∧ m.store.heap.released = [0, 2] ∧
    Transfers overlapping es m :=
  ⟨_, _, rfl, rfl, rfl, transfers_of_run rfl⟩

end PacketQueue

end EchoIocp
