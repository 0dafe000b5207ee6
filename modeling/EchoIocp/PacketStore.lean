import EchoIocp.CustomOverlapped
import EchoIocp.Lib.Blocks
import EchoIocp.Lib.Machine

namespace EchoIocp

/-- A `Packet` in memory; `buffer` names a block. -/
structure PacketObject where
  clientID : ℤ
  buffer : Option ℕ
  dataSize : ℕ

namespace PacketObject

/-- A new block of `n` bytes and `CopyMemory` of `n` bytes into it. -/
def filled (h : Blocks UInt8) (source : List UInt8) (n : ℕ) : Blocks UInt8 :=
  (h.alloc (List.replicate n 0)).write h.allocated (source.take n)

/-- `new char[n]` and `CopyMemory` into it; `none` when the allocation throws. -/
def newCopy (h : Blocks UInt8) (source : List UInt8) (n : ℕ) (throws : Bool) :
    Option (Blocks UInt8 × ℕ) :=
  if throws then none else some (filled h source n, h.allocated)

/-- `Packet()`. -/
def construct : PacketObject := ⟨0, none, 0⟩

/-- `Packet(const Packet& other)`; no object is left when it throws. -/
def copyConstruct (h : Blocks UInt8) (other : PacketObject) (throws : Bool) :
    Blocks UInt8 × Option PacketObject :=
  let this : PacketObject := ⟨other.clientID, none, other.dataSize⟩
  match other.buffer with
  | none => (h, some this)
  | some source =>
    match newCopy h (h.cells source) this.dataSize throws with
    | none => (h, none)
    | some (h, b) => (h, some { this with buffer := some b })

/-- `operator=` from another object; the last component tells whether it threw. -/
def assign (h : Blocks UInt8) (this other : PacketObject) (throws : Bool) :
    Blocks UInt8 × PacketObject × Bool :=
  let this := { this with clientID := other.clientID, dataSize := other.dataSize }
  let h := h.free this.buffer
  match other.buffer with
  | none => (h, { this with buffer := none }, false)
  | some source =>
    match newCopy h (h.cells source) this.dataSize throws with
    | none => (h, this, true)
    | some (h, b) => (h, { this with buffer := some b }, false)

def set (this : PacketObject) (clientID : ℤ) : PacketObject := { this with clientID }

/-- `Set(clientID, targetBuffer, dataSize)`; `targetBuffer` reads the bytes designated. -/
def setData (h : Blocks UInt8) (this : PacketObject) (clientID : ℤ)
    (targetBuffer : Blocks UInt8 → List UInt8) (dataSize : ℕ) (throws : Bool) :
    Blocks UInt8 × PacketObject × Bool :=
  let this := { this with clientID }
  let h := h.free this.buffer
  let this := { this with dataSize }
  match newCopy h (targetBuffer h) dataSize throws with
  | none => (h, this, true)
  | some (h, b) => (h, { this with buffer := some b }, false)

/-- `~Packet()`. -/
def destruct (h : Blocks UInt8) (this : PacketObject) : Blocks UInt8 := h.free this.buffer

/-- The packet an object stands for. -/
def value (h : Blocks UInt8) (this : PacketObject) : Packet :=
  ⟨this.clientID, this.buffer.map h.cells, this.dataSize⟩

/-- The block an object owns, and the size it should have. -/
def owns (this : PacketObject) : Option (ℕ × ℕ) := this.buffer.map fun b => (b, this.dataSize)

end PacketObject

open PacketObject

/-- The blocks, and the objects that are alive. -/
structure PacketStore where
  heap : Blocks UInt8
  packets : ℕ → Option PacketObject

namespace PacketStore

/-- Where the bytes given to `Set` lie. -/
inductive CharPtr
  | outside (bytes : List UInt8)
  | inside (b offset : ℕ)

def CharPtr.read : CharPtr → Blocks UInt8 → List UInt8
  | .outside bytes, _ => bytes
  | .inside b offset, h => (h.cells b).drop offset

/-- `n` bytes can be read there, and they are not in the block `own`. -/
def CharPtr.Readable (h : Blocks UInt8) (own : Option ℕ) (n : ℕ) : CharPtr → Prop
  | .outside bytes => n ≤ bytes.length
  | .inside b offset => h.live b = true ∧ offset + n ≤ (h.cells b).length ∧ own ≠ some b

instance (h : Blocks UInt8) (own : Option ℕ) (n : ℕ) :
    (p : CharPtr) → Decidable (p.Readable h own n)
  | .outside bytes => inferInstanceAs (Decidable (n ≤ bytes.length))
  | .inside b offset => inferInstanceAs
      (Decidable (h.live b = true ∧ offset + n ≤ (h.cells b).length ∧ own ≠ some b))

/-- An operation on the object `target`, and whether its allocation throws, if it makes one. -/
inductive Op
  | construct (target : ℕ)
  | copyConstruct (target source : ℕ) (throws : Bool)
  | assign (target source : ℕ) (throws : Bool)
  | set (target : ℕ) (clientID : ℤ)
  | setData (target : ℕ) (clientID : ℤ) (targetBuffer : CharPtr) (dataSize : ℕ) (throws : Bool)
  | destruct (target : ℕ)

def Op.target : Op → ℕ
  | .construct target | .copyConstruct target _ _ | .assign target _ _ | .set target _
  | .setData target _ _ _ _ | .destruct target => target

structure Done where
  before : PacketStore
  op : Op
  threw : Bool
  after : PacketStore

def start : PacketStore := ⟨.empty, fun _ => none⟩

def put (s : PacketStore) (target : ℕ) (h : Blocks UInt8) (p : Option PacketObject) :
    PacketStore := ⟨h, Function.update s.packets target p⟩

/-- The state after an operation and whether it threw; `none` where it makes no sense. -/
def exec (s : PacketStore) : Op → Option (PacketStore × Bool)
  | .construct target =>
    match s.packets target with
    | none => some (s.put target s.heap (some .construct), false)
    | some _ => none
  | .copyConstruct target source throws =>
    match s.packets target, s.packets source with
    | none, some other =>
      let r := PacketObject.copyConstruct s.heap other throws
      some (s.put target r.1 r.2, r.2.isNone)
    | _, _ => none
  | .assign target source throws =>
    match s.packets target, s.packets source with
    | some this, some other =>
      if target = source then some (s, false)
      else
        let r := PacketObject.assign s.heap this other throws
        some (s.put target r.1 (some r.2.1), r.2.2)
    | _, _ => none
  | .set target clientID =>
    (s.packets target).map fun this => (s.put target s.heap (some (this.set clientID)), false)
  | .setData target clientID targetBuffer dataSize throws =>
    match s.packets target with
    | some this =>
      if targetBuffer.Readable s.heap this.buffer dataSize then
        let r := this.setData s.heap clientID targetBuffer.read dataSize throws
        some (s.put target r.1 (some r.2.1), r.2.2)
      else none
    | none => none
  | .destruct target =>
    (s.packets target).map fun this => (s.put target (this.destruct s.heap) none, false)

def machine : Machine PacketStore Op Done where
  step s op := (s.exec op).map fun r => (r.1, [⟨s, op, r.2, r.1⟩])

def value (s : PacketStore) (o : ℕ) : Option Packet := (s.packets o).map (PacketObject.value s.heap)

def owns (s : PacketStore) (o : ℕ) : Option (ℕ × ℕ) := (s.packets o).bind PacketObject.owns

/-- What the target of an operation should stand for afterwards. -/
def wanted (s : PacketStore) : Op → Option Packet
  | .construct _ => some default
  | .copyConstruct _ source _ | .assign _ source _ => s.value source
  | .set target clientID => (s.value target).map fun p => p.set clientID
  | .setData target clientID targetBuffer dataSize _ =>
    (s.value target).map fun p => p.setData clientID (targetBuffer.read s.heap) dataSize
  | .destruct _ => none

/-- An operation that does not throw does what it should, and none touches another packet. -/
structure Done.Faithful (d : Done) : Prop where
  target : d.threw = false → d.after.value d.op.target = d.before.wanted d.op
  others : ∀ o, o ≠ d.op.target → d.after.value o = d.before.value o

/-- Every packet has its own live block of `DataSize` bytes or none, no block was released twice,
and every operation was faithful. -/
structure Kept (done : List Done) (s : PacketStore) : Prop where
  owned : s.heap.Owned s.owns
  once : s.heap.released.Nodup
  faithful : ∀ d ∈ done, d.Faithful

/-- The allocation throws after `delete[] Buffer` released a block. -/
def Strands (s : PacketStore) : Op → Prop
  | .assign target source throws => throws = true ∧ target ≠ source ∧
    (∃ this ∈ s.packets target, this.buffer ≠ none) ∧
    ∃ other ∈ s.packets source, other.buffer ≠ none
  | .setData target _ _ _ throws => throws = true ∧ ∃ this ∈ s.packets target, this.buffer ≠ none
  | .construct _ | .copyConstruct _ _ _ | .set _ _ | .destruct _ => False

def Spared (s : PacketStore) (op : Op) : Prop := (s.exec op).isSome = true → ¬ s.Strands op

end PacketStore

namespace PacketObject

variable {h : Blocks UInt8} {this : PacketObject} {bytes : List UInt8} {n b : ℕ}

/-- Releases the block of `this` and takes a fresh one for the front of `source`, if there is one. -/
def refill (h : Blocks UInt8) (this : PacketObject) (clientID : ℤ) (source : Option (List UInt8))
    (n : ℕ) (throws : Bool) : Blocks UInt8 × PacketObject × Bool :=
  match source with
  | none => (h.free this.buffer, ⟨clientID, none, n⟩, false)
  | some bytes =>
    match newCopy (h.free this.buffer) bytes n throws with
    | none => (h.free this.buffer, ⟨clientID, this.buffer, n⟩, true)
    | some (h, b) => (h, ⟨clientID, some b, n⟩, false)

theorem assign_eq (h : Blocks UInt8) (this other : PacketObject) (throws : Bool) :
    assign h this other throws =
      refill h this other.clientID (other.buffer.map h.cells) other.dataSize throws := by
  unfold assign refill
  cases other.buffer with
  | none => rfl
  | some source =>
    simp only [Blocks.free_cells, Option.map_some]

theorem setData_eq (h : Blocks UInt8) (this : PacketObject) (clientID : ℤ)
    (targetBuffer : PacketStore.CharPtr) (n : ℕ) (throws : Bool) :
    setData h this clientID targetBuffer.read n throws =
      refill h this clientID (some (targetBuffer.read h)) n throws := by
  have hread : targetBuffer.read (h.free this.buffer) = targetBuffer.read h := by
    cases targetBuffer with
    | outside bytes => rfl
    | inside b offset => exact congrArg (List.drop offset) (congrFun (Blocks.free_cells _) b)
  unfold setData refill
  simp only [hread]

theorem copyConstruct_eq (h : Blocks UInt8) (other : PacketObject) (throws : Bool) :
    copyConstruct h other throws =
      let r := refill h ⟨other.clientID, none, other.dataSize⟩ other.clientID
        (other.buffer.map h.cells) other.dataSize throws
      (r.1, if r.2.2 then none else some r.2.1) := by
  unfold copyConstruct refill
  cases other.buffer with
  | none => rfl
  | some source => cases throws <;> rfl

variable {ι : Type*} [DecidableEq ι] {own : ι → Option (ℕ × ℕ)} {i : ι} {clientID : ℤ}
  {source : Option (List UInt8)} {throws : Bool}

theorem filled_ledger (hl : h.Ledger) (bytes : List UInt8) (n : ℕ) : (filled h bytes n).Ledger :=
  (hl.alloc _).write

theorem filled_cells_self (hn : n ≤ bytes.length) :
    (filled h bytes n).cells h.allocated = bytes.take n := by
  unfold filled
  rw [Blocks.write_cells_self, Blocks.alloc_cells_self, List.length_take, Nat.min_eq_left hn]
  simp

theorem filled_cells_lt (bytes : List UInt8) (n : ℕ) (hb : b < h.allocated) :
    (filled h bytes n).cells b = h.cells b := by
  have hne := Nat.ne_of_lt hb
  unfold filled
  rw [Blocks.write_cells_ne _ hne, Blocks.alloc_cells_ne _ hne]

theorem filled_owned (hl : h.Ledger) (ho : h.Owned own) (bytes : List UInt8) (n : ℕ) :
    (filled h bytes n).Owned (Function.update own i (some (h.allocated, n))) := by
  have halloc := ho.alloc (i := i) hl (List.replicate n 0)
  rw [List.length_replicate] at halloc
  apply halloc.write
  rw [Blocks.alloc_cells_self, List.length_replicate, List.length_take]
  exact Nat.min_le_left _ _

theorem refill_fresh (h : Blocks UInt8) (this : PacketObject) (clientID : ℤ) (bytes : List UInt8)
    (n : ℕ) : refill h this clientID (some bytes) n false =
      (filled (h.free this.buffer) bytes n, ⟨clientID, some h.allocated, n⟩, false) := by
  rw [← Blocks.free_allocated this.buffer]
  rfl

theorem refill_frame (clientID : ℤ) (source : Option (List UInt8)) (n : ℕ) (throws : Bool)
    (hl : h.Ledger) (hlive : ∀ b ∈ this.buffer, h.live b = true) :
    (refill h this clientID source n throws).1.Ledger ∧
      (h.released.Nodup → (refill h this clientID source n throws).1.released.Nodup) ∧
      ∀ b, b < h.allocated → (refill h this clientID source n throws).1.cells b = h.cells b := by
  have hfree := hl.free hlive
  have hnodup := fun hnd => hl.nodup_free hnd hlive
  have hcells (b : ℕ) : (h.free this.buffer).cells b = h.cells b :=
    congrFun (Blocks.free_cells _) b
  cases source with
  | none => exact ⟨hfree, hnodup, fun b _ => hcells b⟩
  | some bytes =>
    cases throws with
    | true => exact ⟨hfree, hnodup, fun b _ => hcells b⟩
    | false =>
      rw [refill_fresh]
      refine ⟨filled_ledger hfree bytes n, hnodup, fun b hb => ?_⟩
      rw [← Blocks.free_allocated this.buffer] at hb
      exact (filled_cells_lt bytes n hb).trans (hcells b)

theorem refill_threw : (refill h this clientID source n throws).2.2 = (source.isSome && throws) := by
  cases source with
  | none => rfl
  | some bytes => cases throws <;> rfl

theorem refill_buffer (ht : (refill h this clientID source n throws).2.2 = true) :
    (refill h this clientID source n throws).2.1.buffer = this.buffer := by
  -- an allocation that throws leaves the old pointer behind
  cases source with
  | none => cases ht
  | some bytes =>
    cases throws with
    | true => rfl
    | false => cases ht

theorem refill_value (hn : ∀ bytes ∈ source, n ≤ bytes.length)
    (ht : (refill h this clientID source n throws).2.2 = false) :
    (refill h this clientID source n throws).2.1.value (refill h this clientID source n throws).1 =
      ⟨clientID, source.map (List.take n), n⟩ := by
  cases source with
  | none => rfl
  | some bytes =>
    cases throws with
    | true => cases ht
    | false =>
      rw [refill_fresh]
      unfold value
      simp only [Option.map_some]
      rw [← Blocks.free_allocated this.buffer, filled_cells_self (hn bytes rfl)]

/-- The object refilled owns its block unless it threw after releasing one. -/
theorem refill_owned_iff (hl : h.Ledger) (ho : h.Owned own)
    (hi : this.buffer = (own i).map Prod.fst) :
    (refill h this clientID source n throws).1.Owned
      (Function.update own i (refill h this clientID source n throws).2.1.owns) ↔
      ¬ ((refill h this clientID source n throws).2.2 = true ∧ this.buffer ≠ none) := by
  have hlive := ho.live_of hi
  have hfree := ho.free hi
  cases source with
  | none => exact ⟨fun _ hn => Bool.noConfusion hn.1, fun _ => hfree⟩
  | some bytes =>
    cases throws with
    | false =>
      rw [refill_fresh]
      refine ⟨fun _ hn => Bool.noConfusion hn.1, fun _ => ?_⟩
      have hfill := filled_owned (i := i) (hl.free hlive) hfree bytes n
      rw [Function.update_idem, Blocks.free_allocated] at hfill
      exact hfill
    | true =>
      constructor
      · rintro hown ⟨-, hb⟩
        obtain ⟨b, hb⟩ := Option.ne_none_iff_exists'.mp hb
        have hself : Function.update own i
            (owns ⟨clientID, this.buffer, n⟩) i = some (b, n) := by
          rw [Function.update_self, owns, hb]
          rfl
        have hdead := (hown.live i b n hself).1
        have hfalse : (h.free this.buffer).live b = false := hb ▸ Blocks.free_live_self b
        exact Bool.noConfusion (hdead.symm.trans hfalse)
      · intro hn
        have hb : this.buffer = none := by
          by_contra hb
          exact hn ⟨rfl, hb⟩
        have howns : owns ⟨clientID, this.buffer, n⟩ = none := by
          rw [owns, hb]
          rfl
        show (h.free this.buffer).Owned (Function.update own i (owns ⟨clientID, this.buffer, n⟩))
        rw [howns]
        exact hfree

end PacketObject

namespace PacketStore

variable {s s' : PacketStore} {op : Op} {target o n : ℕ} {h : Blocks UInt8} {threw throws : Bool}
  {p : Option PacketObject} {this : PacketObject} {clientID : ℤ} {source : Option (List UInt8)}

theorem CharPtr.Readable.length_le {own : Option ℕ} {targetBuffer : CharPtr}
    (hr : targetBuffer.Readable h own n) : n ≤ (targetBuffer.read h).length := by
  cases targetBuffer with
  | outside bytes => exact hr
  | inside b offset =>
    unfold CharPtr.read
    rw [List.length_drop]
    have := hr.2.1
    omega

theorem put_packets_self : (s.put target h p).packets target = p := Function.update_self _ _ _

theorem put_packets_ne (ho : o ≠ target) : (s.put target h p).packets o = s.packets o :=
  Function.update_of_ne ho _ _

theorem put_owns :
    (s.put target h p).owns = Function.update s.owns target (p.bind PacketObject.owns) := by
  funext o
  unfold PacketStore.owns
  by_cases ho : o = target
  · rw [ho, Function.update_self, put_packets_self]
  · rw [Function.update_of_ne ho, put_packets_ne ho]

theorem buffer_eq (hp : s.packets target = p) :
    p.bind PacketObject.buffer = (s.owns target).map Prod.fst := by
  unfold PacketStore.owns PacketObject.owns
  rw [hp]
  cases p with
  | none => rfl
  | some this =>
    rw [Option.bind_some, Option.bind_some, Option.map_map]
    exact Option.map_id'.symm

theorem value_put_ne (hl : s.heap.Ledger) (ho : s.heap.Owned s.owns)
    (hcells : ∀ b, b < s.heap.allocated → h.cells b = s.heap.cells b) (hne : o ≠ target) :
    (s.put target h p).value o = s.value o := by
  unfold PacketStore.value
  rw [put_packets_ne hne]
  cases ho' : s.packets o with
  | none => rfl
  | some this =>
    have hbytes : this.buffer.map h.cells = this.buffer.map s.heap.cells := by
      apply Option.map_congr
      intro b hb
      exact hcells b (hl.live_lt b (ho.live_of (buffer_eq ho') b hb))
    show some (PacketObject.value h this) = some (PacketObject.value s.heap this)
    unfold PacketObject.value
    rw [hbytes]

theorem value_of (hp : s.packets o = some this) :
    s.value o = some (PacketObject.value s.heap this) := by
  unfold PacketStore.value
  rw [hp]
  rfl

theorem value_put_self : (s.put target h p).value target = p.map (PacketObject.value h) := by
  unfold PacketStore.value
  rw [put_packets_self]
  rfl

theorem faithful_put (hl : s.heap.Ledger) (ho : s.heap.Owned s.owns)
    (hcells : ∀ b, b < s.heap.allocated → h.cells b = s.heap.cells b) (hop : op.target = target)
    (hw : threw = false → p.map (PacketObject.value h) = s.wanted op) :
    Done.Faithful ⟨s, op, threw, s.put target h p⟩ := by
  subst hop
  exact ⟨fun ht => value_put_self.trans (hw ht), fun o hne => value_put_ne hl ho hcells hne⟩

/-- What is shown of every operation, from a state where nothing has gone wrong. -/
structure Performed (s : PacketStore) (op : Op) (s' : PacketStore) (threw : Bool) : Prop where
  ledger : s'.heap.Ledger
  once : s'.heap.released.Nodup
  faithful : Done.Faithful ⟨s, op, threw, s'⟩
  owned : s'.heap.Owned s'.owns ↔ ¬ s.Strands op

theorem performed_refill (hl : s.heap.Ledger) (ho : s.heap.Owned s.owns)
    (hn : s.heap.released.Nodup) (hi : this.buffer = (s.owns target).map Prod.fst)
    (hsource : ∀ bytes ∈ source, n ≤ bytes.length) (hop : op.target = target)
    (hwanted : s.wanted op = some ⟨clientID, source.map (List.take n), n⟩)
    (hstrands : s.Strands op ↔ (source.isSome && throws) = true ∧ this.buffer ≠ none) :
    Performed s op (s.put target (refill s.heap this clientID source n throws).1
        (some (refill s.heap this clientID source n throws).2.1))
      (refill s.heap this clientID source n throws).2.2 := by
  obtain ⟨hl', hn', hcells⟩ := refill_frame clientID source n throws hl (ho.live_of hi)
  refine ⟨hl', hn' hn, faithful_put hl ho hcells hop fun ht => ?_, ?_⟩
  · rw [hwanted, ← refill_value hsource ht]
    rfl
  · rw [put_owns, hstrands, ← refill_threw]
    exact refill_owned_iff hl ho hi

theorem performed_plain (hl : s.heap.Ledger) (ho : s.heap.Owned s.owns)
    (hl' : h.Ledger) (hn' : h.released.Nodup) (hcells : h.cells = s.heap.cells)
    (hown : h.Owned (Function.update s.owns target (p.bind PacketObject.owns)))
    (hop : op.target = target) (hw : p.map (PacketObject.value h) = s.wanted op)
    (hstrands : ¬ s.Strands op) : Performed s op (s.put target h p) false := by
  refine ⟨hl', hn', faithful_put hl ho (fun b _ => congrFun hcells b) hop fun _ => hw, ?_⟩
  rw [put_owns]
  exact ⟨fun _ => hstrands, fun _ => hown⟩

theorem value_of_owned {other : PacketObject} (ho : s.heap.Owned s.owns)
    (hp : s.packets o = some other) :
    (∀ bytes ∈ other.buffer.map s.heap.cells, other.dataSize ≤ bytes.length) ∧
      s.value o = some ⟨other.clientID,
        (other.buffer.map s.heap.cells).map (List.take other.dataSize), other.dataSize⟩ := by
  -- copying takes the whole block of the other packet
  unfold PacketStore.value PacketObject.value
  rw [hp]
  cases hb : other.buffer with
  | none => exact ⟨by simp, by simp [hb]⟩
  | some b =>
    have hown : s.owns o = some (b, other.dataSize) := by
      unfold PacketStore.owns PacketObject.owns
      rw [hp, Option.bind_some, hb]
      rfl
    have hlen := (ho.live o b _ hown).2
    constructor
    · intro bytes hbytes
      obtain rfl := Option.some.inj hbytes
      exact Nat.le_of_eq hlen.symm
    · simp [hb, ← hlen]

theorem copyConstruct_performed {source : ℕ} {other : PacketObject} (hl : s.heap.Ledger)
    (ho : s.heap.Owned s.owns) (hn : s.heap.released.Nodup) (ht : s.packets target = none)
    (hp : s.packets source = some other) :
    Performed s (.copyConstruct target source throws)
      (s.put target (PacketObject.copyConstruct s.heap other throws).1
        (PacketObject.copyConstruct s.heap other throws).2)
      (PacketObject.copyConstruct s.heap other throws).2.isNone := by
  let this : PacketObject := ⟨other.clientID, none, other.dataSize⟩
  let r := refill s.heap this other.clientID (other.buffer.map s.heap.cells) other.dataSize throws
  have hi : this.buffer = (s.owns target).map Prod.fst := buffer_eq ht
  obtain ⟨hsource, hvalue⟩ := value_of_owned ho hp
  have hr : Performed s (.copyConstruct target source throws) (s.put target r.1 (some r.2.1))
      r.2.2 := by
    refine performed_refill hl ho hn hi hsource rfl hvalue ⟨fun hf => hf.elim, fun hb => ?_⟩
    exact hb.2 rfl
  rw [copyConstruct_eq]
  show Performed s _ (s.put target r.1 (if r.2.2 then none else some r.2.1))
    (if r.2.2 then none else some r.2.1).isNone
  cases hthrew : r.2.2 with
  | false =>
    rw [hthrew] at hr
    exact hr
  | true =>
    -- the half-built object is gone, and had no block yet
    obtain ⟨hl', hn', hcells⟩ := refill_frame other.clientID (other.buffer.map s.heap.cells)
      other.dataSize throws hl (ho.live_of hi)
    have howns : r.2.1.owns = none := by
      unfold PacketObject.owns
      rw [show r.2.1.buffer = _ from refill_buffer hthrew]
      rfl
    have hown := hr.owned.mpr fun hf => hf
    rw [put_owns, Option.bind_some, howns] at hown
    refine ⟨hl', hn' hn, faithful_put hl ho hcells rfl fun ht => Bool.noConfusion ht, ?_⟩
    rw [put_owns]
    exact ⟨fun _ hf => hf, fun _ => hown⟩

theorem exec_performed (hl : s.heap.Ledger) (ho : s.heap.Owned s.owns)
    (hn : s.heap.released.Nodup) (hs : s.exec op = some (s', threw)) :
    Performed s op s' threw := by
  cases op with
  | construct target =>
    cases hp : s.packets target with
    | none =>
      simp only [exec, hp, Option.some.injEq, Prod.mk.injEq] at hs
      obtain ⟨rfl, rfl⟩ := hs
      exact performed_plain hl ho hl hn rfl (ho.free (buffer_eq hp)) rfl rfl id
    | some this => simp [exec, hp] at hs
  | copyConstruct target source throws =>
    cases ht : s.packets target with
    | some this => simp [exec, ht] at hs
    | none =>
      cases hp : s.packets source with
      | none => simp [exec, ht, hp] at hs
      | some other =>
        simp only [exec, ht, hp, Option.some.injEq, Prod.mk.injEq] at hs
        obtain ⟨rfl, rfl⟩ := hs
        exact copyConstruct_performed hl ho hn ht hp
  | assign target source throws =>
    cases ht : s.packets target with
    | none => simp [exec, ht] at hs
    | some this =>
      cases hp : s.packets source with
      | none => simp [exec, ht, hp] at hs
      | some other =>
        simp only [exec, ht, hp] at hs
        split_ifs at hs with hself
        · subst hself
          obtain ⟨rfl, rfl⟩ := Prod.mk.inj (Option.some.inj hs)
          exact ⟨hl, hn, ⟨fun _ => rfl, fun _ _ => rfl⟩, fun _ hstr => hstr.2.1 rfl, fun _ => ho⟩
        · obtain ⟨rfl, rfl⟩ := Prod.mk.inj (Option.some.inj hs)
          obtain ⟨hsource, hvalue⟩ := value_of_owned ho hp
          rw [assign_eq]
          refine performed_refill hl ho hn (buffer_eq ht) hsource rfl hvalue ?_
          simp [Strands, ht, hp, hself, Option.isSome_iff_ne_none]
          tauto
  | set target clientID =>
    obtain ⟨this, hp, he⟩ := Option.map_eq_some_iff.mp hs
    obtain ⟨rfl, rfl⟩ := Prod.mk.inj he
    have hown : Function.update s.owns target ((some (this.set clientID)).bind PacketObject.owns) =
        s.owns := by
      have hsame : (some (this.set clientID)).bind PacketObject.owns = s.owns target := by
        unfold PacketStore.owns
        rw [hp]
        rfl
      rw [hsame, Function.update_eq_self]
    refine performed_plain hl ho hl hn rfl (hown.symm ▸ ho) rfl ?_ id
    show _ = (s.value target).map _
    rw [value_of hp]
    rfl
  | setData target clientID targetBuffer dataSize throws =>
    cases hp : s.packets target with
    | none => simp [exec, hp] at hs
    | some this =>
      simp only [exec, hp] at hs
      split_ifs at hs with hread
      obtain ⟨rfl, rfl⟩ := Prod.mk.inj (Option.some.inj hs)
      rw [setData_eq]
      refine performed_refill hl ho hn (buffer_eq hp) ?_ rfl ?_ ?_
      · intro bytes hbytes
        obtain rfl := Option.some.inj hbytes
        exact hread.length_le
      · show (s.value target).map _ = _
        rw [value_of hp]
        rfl
      · simp [Strands, hp]
  | destruct target =>
    obtain ⟨this, hp, he⟩ := Option.map_eq_some_iff.mp hs
    obtain ⟨rfl, rfl⟩ := Prod.mk.inj he
    have hlive := ho.live_of (buffer_eq hp)
    exact performed_plain hl ho (hl.free hlive) (hl.nodup_free hn hlive) (Blocks.free_cells _)
      (ho.free (buffer_eq hp)) rfl rfl id

/-- The packets keep their representation exactly when no allocation throws after a block was
released. -/
theorem kept_along_iff (ops : List Op) :
    machine.Along start ops Kept ↔ machine.Steps start ops Spared := by
  apply Machine.along_iff_steps (J := fun _ s => s.heap.Ledger)
  · have hnone (o : ℕ) (x : ℕ × ℕ) : start.owns o ≠ some x := by simp [start, PacketStore.owns]
    refine ⟨Blocks.ledger_empty, ⟨?_, ?_⟩, List.nodup_nil, by simp⟩
    · intro o b n ho
      exact absurd ho (hnone o _)
    · intro o o' b n m ho
      exact absurd ho (hnone o _)
  · intro bs done s op s' e _ _ hl hk hs
    obtain ⟨⟨s₁, threw⟩, hexec, he⟩ := Option.map_eq_some_iff.mp hs
    obtain ⟨rfl, rfl⟩ := Prod.mk.inj he
    have hp := exec_performed hl hk.owned hk.once hexec
    refine ⟨hp.ledger, ?_⟩
    constructor
    · intro hk' _
      exact hp.owned.mp hk'.owned
    · intro hspared
      refine ⟨hp.owned.mpr (hspared (by rw [hexec]; rfl)), hp.once, fun d hd => ?_⟩
      rcases List.mem_append.mp hd with hd | hd
      · exact hk.faithful d hd
      · rw [List.mem_singleton.mp hd]
        exact hp.faithful
  · intro s op hs hsome
    have hnone : s.exec op = none := Option.map_eq_none_iff.mp hs
    rw [hnone] at hsome
    exact Bool.noConfusion hsome

/-- A second `Set` whose allocation throws leaves the packet pointing at the block it released, and
the destructor releases it again. -/
theorem released_twice :
    ∃ s done, machine.run start [.construct 0, .setData 0 7 (.outside [1, 2]) 2 false,
        .setData 0 7 (.outside [3]) 1 true, .destruct 0] = some (s, done) ∧
      s.heap.released = [0, 0] ∧ ¬ machine.Along start [.construct 0,
        .setData 0 7 (.outside [1, 2]) 2 false, .setData 0 7 (.outside [3]) 1 true, .destruct 0]
        Kept := by
  refine ⟨_, _, rfl, rfl, fun hal => ?_⟩
  have hk := hal.last rfl
  exact absurd hk.once (by decide)

end PacketStore

end EchoIocp
