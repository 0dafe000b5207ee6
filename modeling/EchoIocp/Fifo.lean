import EchoIocp.Lib.Machine
import EchoIocp.LockFreeCircleQueue

namespace EchoIocp

namespace LockFreeCircleQueue

variable {T : Type*}

inductive Op (T : Type*)
  | push (data : T)
  | pop
  | front
  | empty
  | size
  | clear

inductive Result (T : Type*)
  | pushed (accepted : Bool)
  | popped (d : T)
  | fronted (d : T)
  | isEmpty (b : Bool)
  | sized (n : ℕ)
  | cleared

/-- `pop` where a move out of the array leaves `moved` of the element behind. -/
def popMoving [Inhabited T] (moved : T → T) (q : LockFreeCircleQueue T) :
    LockFreeCircleQueue T × T :=
  let currentOutputIndex := q.outputIndex
  if currentOutputIndex = q.inputIndex then (q, default)
  else
    let data := q.buffer currentOutputIndex
    ({ q with
      buffer := Function.update q.buffer currentOutputIndex (moved data)
      outputIndex := (currentOutputIndex + 1) % maxQueueSize }, data)

def perform [Inhabited T] (moved : T → T) (q : LockFreeCircleQueue T) :
    Op T → LockFreeCircleQueue T × Result T
  | .push data => ((q.push data).1, .pushed (q.push data).2)
  | .pop => ((q.popMoving moved).1, .popped (q.popMoving moved).2)
  | .front => (q, .fronted q.front)
  | .empty => (q, .isEmpty q.empty)
  | .size => (q, .sized q.size)
  | .clear => (q.clear, .cleared)

/-- Any call may follow any other; a call is observed with its result. -/
def calls [Inhabited T] (moved : T → T) :
    Machine (LockFreeCircleQueue T) (Op T) (Op T × Result T) where
  step q op := some ((q.perform moved op).1, [(op, (q.perform moved op).2)])

/-- What a call does to the list; only `Front()` of an empty list may return anything. -/
inductive Served [Inhabited T] : List T → Op T → Result T → List T → Prop
  | push (l : List T) (d : T) (h : l.length < maxQueueSize - 1) :
      Served l (.push d) (.pushed true) (l ++ [d])
  | refuse (l : List T) (d : T) (h : ¬ l.length < maxQueueSize - 1) :
      Served l (.push d) (.pushed false) l
  | pop (d : T) (rest : List T) : Served (d :: rest) .pop (.popped d) rest
  | popNil : Served [] .pop (.popped default) []
  | front (d : T) (rest : List T) : Served (d :: rest) .front (.fronted d) (d :: rest)
  | frontNil (d : T) : Served [] .front (.fronted d) []
  | empty (l : List T) : Served l .empty (.isEmpty l.isEmpty) l
  | size (l : List T) : Served l .size (.sized l.length) l
  | clear (l : List T) : Served l .clear .cleared []

/-- The calls so far, all served by one list that was empty at first. -/
inductive Serves [Inhabited T] : List (Op T × Result T) → List T → Prop
  | start : Serves [] []
  | call {es : List (Op T × Result T)} {l l' : List T} {op : Op T} {r : Result T}
      (h : Serves es l) (hs : Served l op r l') : Serves (es ++ [(op, r)]) l'

def recent (es : List (Op T × Result T)) : List T :=
  es.foldl (fun l e =>
    match e with
    | (.push d, .pushed true) => l ++ [d]
    | (.clear, _) => []
    | _ => l) []

/-- The queue has served the calls as the bounded list `contents`, which has nothing older than the
last `clear()`, and it goes on so whatever the next call is. -/
structure Bounded [Inhabited T] (moved : T → T) (es : List (Op T × Result T))
    (q : LockFreeCircleQueue T) : Prop where
  serves : Serves es q.contents
  recent : q.contents <:+ recent es
  next : ∀ op, Served q.contents op (q.perform moved op).2 (q.perform moved op).1.contents
  unchanged : ∀ op ≠ .clear, (q.perform moved op).1.contents = q.contents →
    (q.perform moved op).1 = q

variable [Inhabited T] {q : LockFreeCircleQueue T} {moved : T → T} {d : T} {rest : List T}

omit [Inhabited T] in
theorem clear_inRange (q : LockFreeCircleQueue T) : q.clear.InRange := by simp [clear, InRange]

omit [Inhabited T] in
@[simp] theorem clear_contents (q : LockFreeCircleQueue T) : q.clear.contents = [] := by
  simp [clear, contents, Circular.occupied_self]

theorem popMoving_of_nil (h : q.InRange) (hc : q.contents = []) :
    q.popMoving moved = (q, default) := by
  unfold popMoving
  rw [if_pos ((contents_eq_nil h).mp hc)]

theorem popMoving_of_cons (moved : T → T) (h : q.InRange) (hc : q.contents = d :: rest) :
    (q.popMoving moved).2 = d ∧ (q.popMoving moved).1.InRange ∧
      (q.popMoving moved).1.contents = rest := by
  -- the slot just left is no part of the list, so what a move leaves there does not show
  have he : q.outputIndex ≠ q.inputIndex := by
    intro he
    rw [(contents_eq_nil h).mpr he] at hc
    exact List.cons_ne_nil _ _ hc.symm
  obtain ⟨hd, hr, hrest⟩ := pop_of_cons h hc
  unfold pop at hd hr hrest
  unfold popMoving
  rw [if_neg he] at hd hr hrest ⊢
  refine ⟨hd, hr, ?_⟩
  have hslot : ((q.outputIndex + 1) % maxQueueSize + (maxQueueSize - 1)) % maxQueueSize =
      q.outputIndex := by
    have := h.2
    simp only [maxQueueSize] at *
    omega
  have hlen : Circular.occupied maxQueueSize q.inputIndex ((q.outputIndex + 1) % maxQueueSize) ≤
      maxQueueSize - 1 := by
    have := Circular.occupied_lt hr.1 hr.2
    simp only at this
    omega
  have hw := Circular.window_update_behind q.buffer ((q.outputIndex + 1) % maxQueueSize)
    (moved (q.buffer q.outputIndex)) hlen
    (show maxQueueSize - 1 < maxQueueSize by decide)
  rw [hslot] at hw
  exact hw.trans hrest

theorem perform_inRange (h : q.InRange) (op : Op T) : (q.perform moved op).1.InRange := by
  cases op with
  | push data => exact push_inRange h data
  | pop =>
    cases hc : q.contents with
    | nil =>
      simp only [perform]
      rw [popMoving_of_nil h hc]
      exact h
    | cons d rest => exact (popMoving_of_cons moved h hc).2.1
  | clear => exact clear_inRange q
  | front | empty | size => exact h

/-- Every call does to the list what it would do to a bounded FIFO. -/
theorem perform_served (moved : T → T) (h : q.InRange) (op : Op T) :
    Served q.contents op (q.perform moved op).2 (q.perform moved op).1.contents := by
  have hlt := length_lt h
  cases op with
  | push data =>
    simp only [perform]
    by_cases hf : q.contents.length + 1 = maxQueueSize
    · rw [push_of_full h hf]
      exact .refuse _ _ (by omega)
    · obtain ⟨hok, -, hcont⟩ := push_of_room (d := data) h (by omega)
      rw [hok, hcont]
      exact .push _ _ (by omega)
  | pop =>
    simp only [perform]
    cases hc : q.contents with
    | nil =>
      rw [popMoving_of_nil h hc, hc]
      exact .popNil
    | cons d rest =>
      obtain ⟨hd, -, hcont⟩ := popMoving_of_cons moved h hc
      rw [hd, hcont]
      exact .pop d rest
  | front =>
    simp only [perform]
    cases hc : q.contents with
    | nil => exact .frontNil _
    | cons d rest =>
      rw [front_of_cons h hc]
      exact .front d rest
  | empty =>
    simp only [perform]
    have he : q.empty = q.contents.isEmpty := by
      rw [Bool.eq_iff_iff, empty_iff h, List.isEmpty_iff]
    rw [he]
    exact .empty _
  | size =>
    simp only [perform]
    rw [size_eq]
    exact .size _
  | clear =>
    simp only [perform]
    rw [clear_contents]
    exact .clear _

theorem perform_unchanged (h : q.InRange) {op : Op T} (hop : op ≠ .clear)
    (hcont : (q.perform moved op).1.contents = q.contents) : (q.perform moved op).1 = q := by
  cases op with
  | push data =>
    simp only [perform] at hcont ⊢
    by_cases hf : q.contents.length + 1 = maxQueueSize
    · rw [push_of_full h hf]
    · have hlt := length_lt h
      rw [(push_of_room h (by omega)).2.2] at hcont
      exact absurd hcont (by simp)
  | pop =>
    simp only [perform] at hcont ⊢
    cases hc : q.contents with
    | nil => rw [popMoving_of_nil h hc]
    | cons d rest =>
      rw [(popMoving_of_cons moved h hc).2.2, hc] at hcont
      exact absurd hcont (by simp)
  | clear => exact absurd rfl hop
  | front | empty | size => rfl

omit [Inhabited T] in
theorem recent_concat (es : List (Op T × Result T)) (op : Op T) (r : Result T) :
    recent (es ++ [(op, r)]) = match (op, r) with
      | (.push d, .pushed true) => recent es ++ [d]
      | (.clear, _) => []
      | _ => recent es := by
  unfold recent
  rw [List.foldl_append]
  rfl

theorem Served.recent {es : List (Op T × Result T)} {l l' : List T} {op : Op T} {r : Result T}
    (hs : Served l op r l') (hl : l <:+ recent es) : l' <:+ recent (es ++ [(op, r)]) := by
  rw [recent_concat]
  cases hs with
  | push d h =>
    obtain ⟨older, holder⟩ := hl
    exact ⟨older, by rw [← List.append_assoc, holder]⟩
  | pop d => exact (List.suffix_cons d l').trans hl
  | clear => exact List.nil_suffix
  | refuse | popNil | front | frontNil | empty | size => exact hl

/-- Any calls made one after another on a constructed queue are served by a bounded FIFO list. -/
theorem bounded_along (moved : T → T) (buffer : ℕ → T) (ops : List (Op T)) :
    (calls moved).Along (new buffer) ops (Bounded moved) := by
  have hinv : (calls moved).Along (new buffer) ops fun es q =>
      q.InRange ∧ Serves es q.contents ∧ q.contents <:+ LockFreeCircleQueue.recent es := by
    apply Machine.along_of_step
    · refine ⟨new_inRange buffer, ?_, ?_⟩
      · rw [new_contents]
        exact .start
      · rw [new_contents]
        exact List.nil_suffix
    · rintro es q op q' e ⟨hr, hserves, hrecent⟩ hs
      unfold calls at hs
      obtain ⟨rfl, rfl⟩ := Prod.mk.inj (Option.some.inj hs)
      have hstep := perform_served moved hr op
      exact ⟨perform_inRange hr op, hserves.call hstep, hstep.recent hrecent⟩
  intro ops' es q hp hrun
  obtain ⟨hr, hserves, hrecent⟩ := hinv ops' es q hp hrun
  exact ⟨hserves, hrecent, perform_served moved hr, fun op => perform_unchanged hr⟩

end LockFreeCircleQueue

end EchoIocp
