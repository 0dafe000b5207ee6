import EchoIocp.Lib.Circular

namespace EchoIocp

abbrev maxQueueSize : ℕ := 100

structure LockFreeCircleQueue (T : Type*) where
  inputIndex : ℕ
  outputIndex : ℕ
  buffer : ℕ → T

namespace LockFreeCircleQueue

variable {T : Type*} (q : LockFreeCircleQueue T)

/-- A constructed queue; `new T[MAX_QUEUE_SIZE]` fixes the slots only where `T` does. -/
def new (buffer : ℕ → T) : LockFreeCircleQueue T := ⟨0, 0, buffer⟩

def push (data : T) : LockFreeCircleQueue T × Bool :=
  let currentInputIndex := q.inputIndex
  let nextIndex := (currentInputIndex + 1) % maxQueueSize
  if nextIndex = q.outputIndex then (q, false)
  else ({ q with
    buffer := Function.update q.buffer currentInputIndex data
    inputIndex := nextIndex }, true)

def pop [Inhabited T] : LockFreeCircleQueue T × T :=
  let currentOutputIndex := q.outputIndex
  if currentOutputIndex = q.inputIndex then (q, default)
  else
    let data := q.buffer currentOutputIndex
    ({ q with outputIndex := (currentOutputIndex + 1) % maxQueueSize }, data)

def empty : Bool := q.inputIndex == q.outputIndex

def size : ℕ :=
  if q.outputIndex ≤ q.inputIndex then q.inputIndex - q.outputIndex
  else maxQueueSize - q.outputIndex + q.inputIndex

def clear : LockFreeCircleQueue T := { q with inputIndex := 0, outputIndex := 0 }

def front : T := q.buffer q.outputIndex

def InRange : Prop := q.inputIndex < maxQueueSize ∧ q.outputIndex < maxQueueSize

/-- The unpopped elements, oldest first. -/
def contents : List T :=
  Circular.window maxQueueSize q.buffer q.outputIndex
    (Circular.occupied maxQueueSize q.inputIndex q.outputIndex)

variable {q} {d : T} {rest : List T}

theorem new_inRange (buffer : ℕ → T) : (new buffer).InRange := by simp [new, InRange]

@[simp] theorem new_contents (buffer : ℕ → T) : (new buffer).contents = [] := by
  simp [new, contents, Circular.occupied_self]

@[simp] theorem contents_length :
    q.contents.length = Circular.occupied maxQueueSize q.inputIndex q.outputIndex :=
  Circular.window_length

theorem length_lt (h : q.InRange) : q.contents.length < maxQueueSize := by
  rw [contents_length]
  exact Circular.occupied_lt h.1 h.2

theorem full_iff (h : q.InRange) :
    (q.inputIndex + 1) % maxQueueSize = q.outputIndex ↔ q.contents.length + 1 = maxQueueSize := by
  rw [contents_length]
  exact Circular.full_iff h.1 h.2

theorem contents_eq_nil (h : q.InRange) : q.contents = [] ↔ q.outputIndex = q.inputIndex := by
  rw [← List.length_eq_zero_iff, contents_length]
  exact Circular.occupied_eq_zero h.2

/-- Filling the free slot does not show until `inputIndex` moves. -/
theorem contents_write (h : q.InRange) :
    { q with buffer := Function.update q.buffer q.inputIndex d }.contents = q.contents := by
  have hi := Circular.add_occupied h.1 h.2
  have hw := Circular.window_update q.buffer q.outputIndex d (Circular.occupied_lt h.1 h.2)
  rw [hi] at hw
  exact hw

theorem contents_storeInput (h : q.InRange)
    (hf : (q.inputIndex + 1) % maxQueueSize ≠ q.outputIndex) :
    { q with inputIndex := (q.inputIndex + 1) % maxQueueSize }.contents =
      q.contents ++ [q.buffer q.inputIndex] := by
  have hi := Circular.add_occupied h.1 h.2
  simp only [contents]
  rw [Circular.occupied_push h.1 h.2 hf, Circular.window_succ, hi]

theorem contents_storeOutput (h : q.InRange) (he : q.outputIndex ≠ q.inputIndex) :
    q.contents = q.buffer q.outputIndex ::
      { q with outputIndex := (q.outputIndex + 1) % maxQueueSize }.contents := by
  simp only [contents]
  rw [← Circular.occupied_pop h.1 h.2 he, Circular.window_cons h.2]

theorem front_of_cons (h : q.InRange) (hc : q.contents = d :: rest) : q.front = d := by
  have he : q.outputIndex ≠ q.inputIndex := by
    intro he
    rw [(contents_eq_nil h).mpr he] at hc
    exact List.cons_ne_nil _ _ hc.symm
  rw [contents_storeOutput h he] at hc
  exact (List.cons.inj hc).1

theorem push_of_full (h : q.InRange) (hf : q.contents.length + 1 = maxQueueSize) :
    q.push d = (q, false) := by
  simp only [push, if_pos ((full_iff h).mpr hf)]

theorem push_of_room (h : q.InRange) (hf : q.contents.length + 1 < maxQueueSize) :
    (q.push d).2 = true ∧ (q.push d).1.InRange ∧ (q.push d).1.contents = q.contents ++ [d] := by
  have hne : (q.inputIndex + 1) % maxQueueSize ≠ q.outputIndex := fun he => by
    have := (full_iff h).mp he
    omega
  simp only [push, if_neg hne]
  refine ⟨trivial, ⟨Nat.mod_lt _ (by decide), h.2⟩, ?_⟩
  have hs := contents_storeInput (q := { q with buffer := Function.update q.buffer q.inputIndex d })
    h hne
  rw [contents_write h] at hs
  simpa using hs

theorem pop_of_nil [Inhabited T] (h : q.InRange) (hc : q.contents = []) :
    q.pop = (q, default) := by
  simp only [pop, if_pos ((contents_eq_nil h).mp hc)]

theorem pop_of_cons [Inhabited T] (h : q.InRange) (hc : q.contents = d :: rest) :
    q.pop.2 = d ∧ q.pop.1.InRange ∧ q.pop.1.contents = rest := by
  have he : q.outputIndex ≠ q.inputIndex := by
    intro he
    rw [(contents_eq_nil h).mpr he] at hc
    exact List.cons_ne_nil _ _ hc.symm
  rw [contents_storeOutput h he] at hc
  simp only [pop, if_neg he]
  exact ⟨(List.cons.inj hc).1, ⟨h.1, Nat.mod_lt _ (by decide)⟩, (List.cons.inj hc).2⟩

theorem push_inRange (h : q.InRange) (d : T) : (q.push d).1.InRange := by
  by_cases hf : q.contents.length + 1 = maxQueueSize
  · rw [push_of_full h hf]
    exact h
  · have := length_lt h
    exact (push_of_room h (by omega)).2.1

theorem push_prefix (h : q.InRange) (d : T) : q.contents <+: (q.push d).1.contents := by
  by_cases hf : q.contents.length + 1 = maxQueueSize
  · simp only [push_of_full h hf, List.prefix_rfl]
  · have := length_lt h
    rw [(push_of_room h (by omega)).2.2]
    exact List.prefix_append _ _

theorem mem_push {x : T} (h : q.InRange) (hx : x ∈ (q.push d).1.contents) :
    x ∈ q.contents ∨ x = d := by
  by_cases hf : q.contents.length + 1 = maxQueueSize
  · rw [push_of_full h hf] at hx
    exact .inl hx
  · have := length_lt h
    rw [(push_of_room h (by omega)).2.2] at hx
    simpa using hx

theorem pop_inRange [Inhabited T] (h : q.InRange) : q.pop.1.InRange := by
  by_cases hc : q.contents = []
  · rw [pop_of_nil h hc]
    exact h
  · obtain ⟨d, rest, hc⟩ := List.exists_cons_of_ne_nil hc
    exact (pop_of_cons h hc).2.1

theorem empty_iff (h : q.InRange) : q.empty = true ↔ q.contents = [] := by
  rw [contents_eq_nil h, empty, beq_iff_eq, eq_comm]

theorem size_eq : q.size = q.contents.length := by
  rw [contents_length]
  rfl

theorem empty_of_size (h : 0 < q.size) : q.empty = false := by
  rw [empty, beq_eq_false_iff_ne]
  intro he
  simp [size, he] at h

/-- Their indices may differ: one ring may have turned further than the other. -/
structure Same (q q' : LockFreeCircleQueue T) : Prop where
  left : q.InRange
  right : q'.InRange
  contents : q.contents = q'.contents

variable {q' : LockFreeCircleQueue T}

theorem Same.push (h : q.Same q') (d : T) : (q.push d).1.Same (q'.push d).1 := by
  refine ⟨push_inRange h.left d, push_inRange h.right d, ?_⟩
  have hlen := congrArg List.length h.contents
  by_cases hf : q.contents.length + 1 = maxQueueSize
  · rw [push_of_full h.left hf, push_of_full h.right (hlen ▸ hf)]
    exact h.contents
  · have hlt := length_lt h.left
    rw [(push_of_room h.left (by omega)).2.2, (push_of_room h.right (by omega)).2.2, h.contents]

theorem Same.pop [Inhabited T] (h : q.Same q') : q.pop.1.Same q'.pop.1 := by
  refine ⟨pop_inRange h.left, pop_inRange h.right, ?_⟩
  cases hc : q.contents with
  | nil =>
    rw [pop_of_nil h.left hc, pop_of_nil h.right (h.contents ▸ hc)]
    exact h.contents
  | cons d rest =>
    rw [(pop_of_cons h.left hc).2.2, (pop_of_cons h.right (h.contents ▸ hc)).2.2]

theorem Same.empty (h : q.Same q') : q.empty = q'.empty := by
  rw [Bool.eq_iff_iff, empty_iff h.left, empty_iff h.right, h.contents]

theorem Same.size (h : q.Same q') : q.size = q'.size := by rw [size_eq, size_eq, h.contents]

theorem Same.front (h : q.Same q') (he : q.empty = false) : q.front = q'.front := by
  have hn : q.contents ≠ [] := fun hc => by simp [(empty_iff h.left).mpr hc] at he
  obtain ⟨d, rest, hc⟩ := List.exists_cons_of_ne_nil hn
  rw [front_of_cons h.left hc, front_of_cons h.right (h.contents ▸ hc)]

end LockFreeCircleQueue

end EchoIocp
