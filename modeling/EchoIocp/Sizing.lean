import EchoIocp.Spsc

namespace EchoIocp

namespace LockFreeCircleQueue

variable {T : Type*}

/-- Where a call of `size` is; `outputIndex` is loaded a second time when the indices look wrapped. -/
inductive SizePc
  | loadInput
  | loadOutput (input : ℕ)
  | reloadOutput (input : ℕ)
  deriving DecidableEq

def sizeStep (q : LockFreeCircleQueue T) : SizePc → SizePc ⊕ ℕ
  | .loadInput => .inl (.loadOutput q.inputIndex)
  | .loadOutput input =>
    if q.outputIndex ≤ input then .inr (input - q.outputIndex)
    else .inl (.reloadOutput input)
  | .reloadOutput input => .inr (maxQueueSize - q.outputIndex + input)

/-- What the consumer knows inside `pop`. -/
def PopOk (q : LockFreeCircleQueue T) : Option (PopPc T) → Prop
  | none | some .loadOutput => True
  | some (.loadInput cur) => cur = q.outputIndex
  | some (.read cur) | some (.storeOutput cur _) => q.Nonempty ∧ cur = q.outputIndex

variable {q : LockFreeCircleQueue T} {p : Option (PushPc T)} {c : Option (PopPc T)} {pc : PushPc T}
  {pc' : PopPc T}

/-- A push moves `inputIndex` only, and only past a free slot. -/
theorem pushStep_ok (hr : q.InRange) (hp : q.ProducerOk (some pc)) :
    (q.pushStep pc).1.InRange ∧ (q.pushStep pc).1.ProducerOk (q.pushStep pc).2.getLeft? ∧
      (q.pushStep pc).1.outputIndex = q.outputIndex ∧
      ((q.pushStep pc).1.inputIndex = q.inputIndex ∨ (q.pushStep pc).1.Nonempty) := by
  cases pc with
  | loadInput data => exact ⟨hr, rfl, rfl, .inl rfl⟩
  | loadOutput data cur =>
    obtain rfl : cur = q.inputIndex := hp
    by_cases hf : (q.inputIndex + 1) % maxQueueSize = q.outputIndex
    · have hstep : q.pushStep (.loadOutput data q.inputIndex) = (q, .inr false) := if_pos hf
      rw [hstep]
      exact ⟨hr, trivial, rfl, .inl rfl⟩
    · have hstep : q.pushStep (.loadOutput data q.inputIndex) = (q, .inl (.write data
          q.inputIndex ((q.inputIndex + 1) % maxQueueSize))) := if_neg hf
      rw [hstep]
      exact ⟨hr, ⟨rfl, rfl, hf⟩, rfl, .inl rfl⟩
  | write data cur next =>
    obtain ⟨rfl, hnext, hne⟩ := hp
    exact ⟨hr, ⟨rfl, hnext, hne, Function.update_self _ _ _⟩, rfl, .inl rfl⟩
  | storeInput data cur next =>
    obtain ⟨rfl, rfl, hne, -⟩ := hp
    exact ⟨⟨Nat.mod_lt _ (by decide), hr.2⟩, trivial, rfl, .inr hne.symm⟩

theorem PopOk.pushStep (h : q.PopOk c) (hr : q.InRange) (hp : q.ProducerOk (some pc)) :
    (q.pushStep pc).1.PopOk c := by
  obtain ⟨-, -, ho, hi⟩ := pushStep_ok hr hp
  have hn (hn : q.Nonempty) : (q.pushStep pc).1.Nonempty := by
    rcases hi with hi | hi
    · unfold Nonempty
      rw [ho, hi]
      exact hn
    · exact hi
  match c, h with
  | none, h | some .loadOutput, h => trivial
  | some (.loadInput _), h => exact h.trans ho.symm
  | some (.read _), h | some (.storeOutput _ _), h => exact ⟨hn h.1, h.2.trans ho.symm⟩

/-- A pop moves `outputIndex` only, by its store. -/
theorem popStep_ok [Inhabited T] (hr : q.InRange) (hp : q.ProducerOk p)
    (hc : q.PopOk (some pc')) :
    (q.popStep pc').1.InRange ∧ (q.popStep pc').1.ProducerOk p ∧
      (q.popStep pc').1.PopOk (q.popStep pc').2.getLeft? ∧
      (q.popStep pc').1.inputIndex = q.inputIndex ∧
      ((q.popStep pc').1.outputIndex = q.outputIndex ∨
        ∃ d, pc' = .storeOutput q.outputIndex d ∧ q.Nonempty ∧
          (q.popStep pc').1.outputIndex = (q.outputIndex + 1) % maxQueueSize) := by
  cases pc' with
  | loadOutput => exact ⟨hr, hp, rfl, rfl, .inl rfl⟩
  | loadInput cur =>
    obtain rfl : cur = q.outputIndex := hc
    by_cases he : q.outputIndex = q.inputIndex
    · have hstep : q.popStep (.loadInput q.outputIndex) = (q, .inr default) := if_pos he
      rw [hstep]
      exact ⟨hr, hp, trivial, rfl, .inl rfl⟩
    · have hstep : q.popStep (.loadInput q.outputIndex) = (q, .inl (.read q.outputIndex)) :=
        if_neg he
      rw [hstep]
      exact ⟨hr, hp, ⟨he, rfl⟩, rfl, .inl rfl⟩
  | read cur => exact ⟨hr, hp, hc, rfl, .inl rfl⟩
  | storeOutput cur data =>
    obtain ⟨hn, rfl⟩ := hc
    exact ⟨⟨hr.1, Nat.mod_lt _ (by decide)⟩, hp.storeOutput hr hn, trivial, rfl,
      .inr ⟨data, rfl, hn, rfl⟩⟩

end LockFreeCircleQueue

open LockFreeCircleQueue

/-- A queue, the calls running on it, and the number of elements at every moment since the last call
of `size` began. -/
structure Sizing (T : Type*) where
  queue : LockFreeCircleQueue T
  producer : Option (PushPc T)
  consumer : Option (PopPc T)
  sizing : Option SizePc
  seen : List ℕ

namespace Sizing

variable {T : Type*}

inductive Act (T : Type*)
  | push (data : T)
  | pop
  | size
  | producer
  | consumer
  | sizer

/-- `size()` returned `n`; the queue had the numbers of elements `seen` during the call. -/
structure Event where
  n : ℕ
  seen : List ℕ
  deriving DecidableEq

def start (buffer : ℕ → T) : Sizing T := ⟨.new buffer, none, none, none, []⟩

/-- A thread begins a call when its last one returned, or takes the next step of its call. -/
def advance [Inhabited T] (s : Sizing T) : Act T → Option (Sizing T × Option ℕ)
  | .push data =>
    match s.producer with
    | none => some ({ s with producer := some (.loadInput data) }, none)
    | some _ => none
  | .pop =>
    match s.consumer with
    | none => some ({ s with consumer := some .loadOutput }, none)
    | some _ => none
  | .size =>
    match s.sizing with
    | none => some ({ s with sizing := some .loadInput, seen := [] }, none)
    | some _ => none
  | .producer => s.producer.map fun pc =>
    let r := s.queue.pushStep pc
    ({ s with queue := r.1, producer := r.2.getLeft? }, none)
  | .consumer => s.consumer.map fun pc =>
    let r := s.queue.popStep pc
    ({ s with queue := r.1, consumer := r.2.getLeft? }, none)
  | .sizer => s.sizing.map fun pc =>
    let r := s.queue.sizeStep pc
    ({ s with sizing := r.getLeft? }, r.getRight?)

def look (s : Sizing T) : Sizing T := { s with seen := s.seen ++ [s.queue.contents.length] }

def machine [Inhabited T] : Machine (Sizing T) (Act T) Event where
  step s a := (s.advance a).map fun p =>
    (p.1.look, (p.2.map fun n => ⟨n, p.1.look.seen⟩).toList)

/-- Every `size()` returned a number of elements the queue had during the call. -/
def Snapshots (es : List Event) (_ : Sizing T) : Prop :=
  ∀ e ∈ es, e.n ≤ maxQueueSize - 1 ∧ e.n ∈ e.seen

/-- A `pop` does not store `outputIndex` after a push that a running `size` has missed, nor store 0
before `size` loads `outputIndex` again. -/
def Steady (s : Sizing T) : Act T → Prop
  | .consumer =>
    match s.consumer, s.sizing with
    | some (.storeOutput _ _), some (.loadOutput input) => s.queue.inputIndex = input
    | some (.storeOutput cur _), some (.reloadOutput input) =>
      s.queue.inputIndex = input ∧ (cur + 1) % maxQueueSize ≠ 0
    | _, _ => True
  | _ => True

instance (s : Sizing T) (a : Act T) : Decidable (Steady s a) := by
  unfold Steady
  split
  · split <;> infer_instance
  · infer_instance

/-- What `size` would return if it went on at once is a number of elements seen during the call. -/
def SizeOk (q : LockFreeCircleQueue T) (seen : List ℕ) : Option SizePc → Prop
  | none | some .loadInput => True
  | some (.loadOutput input) =>
    input < maxQueueSize ∧ Circular.occupied maxQueueSize input q.outputIndex ∈ seen
  | some (.reloadOutput input) => input < q.outputIndex ∧
    Circular.occupied maxQueueSize input q.outputIndex ∈ seen

structure Inv (s : Sizing T) : Prop where
  inRange : s.queue.InRange
  producer : s.queue.ProducerOk s.producer
  consumer : s.queue.PopOk s.consumer
  sizing : SizeOk s.queue s.seen s.sizing

theorem inv_start (buffer : ℕ → T) : Inv (start buffer) :=
  ⟨new_inRange buffer, trivial, trivial, trivial⟩

variable {q q' : LockFreeCircleQueue T} {pc : Option SizePc} {seen : List ℕ} {k : ℕ}

theorem SizeOk.keep (h : SizeOk q seen pc) (ho : q'.outputIndex = q.outputIndex) :
    SizeOk q' (seen ++ [k]) pc := by
  match pc, h with
  | none, h | some .loadInput, h => trivial
  | some (.loadOutput input), h => exact ⟨h.1, List.mem_append_left _ (ho ▸ h.2)⟩
  | some (.reloadOutput input), h => exact ⟨ho ▸ h.1, List.mem_append_left _ (ho ▸ h.2)⟩

theorem now_mem (q : LockFreeCircleQueue T) (seen : List ℕ) :
    Circular.occupied maxQueueSize q.inputIndex q.outputIndex ∈ seen ++ [q.contents.length] := by
  rw [contents_length]
  exact List.mem_append_right _ (List.mem_singleton_self _)

theorem SizeOk.step {pc : SizePc} (h : SizeOk q seen (some pc)) (hr : q.InRange) :
    SizeOk q (seen ++ [q.contents.length]) (q.sizeStep pc).getLeft? ∧
      ∀ n ∈ (q.sizeStep pc).getRight?, n ≤ maxQueueSize - 1 ∧ n ∈ seen := by
  have ho := hr.2
  cases pc with
  | loadInput => exact ⟨⟨hr.1, now_mem q seen⟩, by simp [sizeStep]⟩
  | loadOutput input =>
    obtain ⟨hi, hmem⟩ := h
    unfold Circular.occupied at hmem
    by_cases hle : q.outputIndex ≤ input
    · simp only [sizeStep, if_pos hle]
      rw [if_pos hle] at hmem
      refine ⟨trivial, fun n hn => ?_⟩
      obtain rfl := Option.some.inj hn
      exact ⟨by omega, hmem⟩
    · simp only [sizeStep, if_neg hle]
      refine ⟨⟨by omega, List.mem_append_left _ ?_⟩, by simp⟩
      unfold Circular.occupied
      exact hmem
  | reloadOutput input =>
    obtain ⟨hlt, hmem⟩ := h
    unfold Circular.occupied at hmem
    rw [if_neg (by omega)] at hmem
    refine ⟨trivial, fun n hn => ?_⟩
    obtain rfl := Option.some.inj hn
    exact ⟨by omega, hmem⟩

variable [Inhabited T] {s s' : Sizing T} {a : Act T} {out : Option ℕ}

/-- A steady pop leaves as many elements as `size` would count. -/
theorem SizeOk.pop {pc' : PopPc T} (h : Inv s) (hc : s.consumer = some pc')
    (hsteady : Steady s .consumer) :
    SizeOk (s.queue.popStep pc').1 (s.seen ++ [(s.queue.popStep pc').1.contents.length])
      s.sizing := by
  have hcons := h.consumer
  rw [hc] at hcons
  obtain ⟨hr, -, -, hi, ho | ⟨d, rfl, hn, ho⟩⟩ := popStep_ok h.inRange h.producer hcons
  · exact h.sizing.keep ho
  · have hnow := now_mem (s.queue.popStep (.storeOutput s.queue.outputIndex d)).1 s.seen
    have hsz := h.sizing
    unfold Steady at hsteady
    rw [hc] at hsteady
    cases hpc : s.sizing with
    | none => trivial
    | some pc =>
      rw [hpc] at hsteady hsz
      cases pc with
      | loadInput => trivial
      | loadOutput input =>
        obtain rfl : s.queue.inputIndex = input := hsteady
        rw [hi] at hnow
        exact ⟨h.inRange.1, hnow⟩
      | reloadOutput input =>
        -- the store moves `outputIndex` up, so the indices still look wrapped
        obtain ⟨rfl, hwrap⟩ : s.queue.inputIndex = input ∧ _ := hsteady
        rw [hi] at hnow
        refine ⟨?_, hnow⟩
        have hlt := hsz.1
        have hout := h.inRange.2
        rw [ho]
        simp only [maxQueueSize] at *
        omega

theorem inv_advance (h : Inv s) (hsteady : Steady s a) (hs : s.advance a = some (s', out)) :
    Inv s'.look ∧ ∀ n ∈ out, n ≤ maxQueueSize - 1 ∧ n ∈ s'.look.seen := by
  unfold advance at hs
  cases a with
  | push data =>
    cases hp : s.producer with
    | none =>
      simp only [hp, Option.some.injEq, Prod.mk.injEq] at hs
      obtain ⟨rfl, rfl⟩ := hs
      exact ⟨⟨h.inRange, trivial, h.consumer, h.sizing.keep rfl⟩, by simp⟩
    | some pc => simp [hp] at hs
  | pop =>
    cases hc : s.consumer with
    | none =>
      simp only [hc, Option.some.injEq, Prod.mk.injEq] at hs
      obtain ⟨rfl, rfl⟩ := hs
      exact ⟨⟨h.inRange, h.producer, trivial, h.sizing.keep rfl⟩, by simp⟩
    | some pc => simp [hc] at hs
  | size =>
    cases hz : s.sizing with
    | none =>
      simp only [hz, Option.some.injEq, Prod.mk.injEq] at hs
      obtain ⟨rfl, rfl⟩ := hs
      exact ⟨⟨h.inRange, h.producer, h.consumer, trivial⟩, by simp⟩
    | some pc => simp [hz] at hs
  | producer =>
    obtain ⟨pc, hp, he⟩ := Option.map_eq_some_iff.mp hs
    obtain ⟨rfl, rfl⟩ := Prod.mk.inj he
    have hprod := h.producer
    rw [hp] at hprod
    obtain ⟨hr, hprod', ho, -⟩ := pushStep_ok h.inRange hprod
    exact ⟨⟨hr, hprod', h.consumer.pushStep h.inRange hprod, h.sizing.keep ho⟩, by simp⟩
  | consumer =>
    obtain ⟨pc, hc, he⟩ := Option.map_eq_some_iff.mp hs
    obtain ⟨rfl, rfl⟩ := Prod.mk.inj he
    have hcons := h.consumer
    rw [hc] at hcons
    obtain ⟨hr, hprod, hcons', -, -⟩ := popStep_ok h.inRange h.producer hcons
    exact ⟨⟨hr, hprod, hcons', SizeOk.pop h hc hsteady⟩, by simp⟩
  | sizer =>
    obtain ⟨pc, hz, he⟩ := Option.map_eq_some_iff.mp hs
    obtain ⟨rfl, rfl⟩ := Prod.mk.inj he
    have hsz := h.sizing
    rw [hz] at hsz
    obtain ⟨hsz', hout⟩ := hsz.step h.inRange
    refine ⟨⟨h.inRange, h.producer, h.consumer, hsz'⟩, fun n hn => ?_⟩
    exact ⟨(hout n hn).1, List.mem_append_left _ (hout n hn).2⟩

/-- While no pop overtakes a running `size()`, what it returns is a number of elements the queue had
during the call. -/
theorem snapshots_along (buffer : ℕ → T) (as : List (Act T))
    (hsteady : machine.Steps (start buffer) as Steady) :
    machine.Along (start buffer) as Snapshots := by
  have hinv : machine.Along (start buffer) as fun es s => Inv s ∧ Snapshots es s := by
    refine Machine.Steps.along (P := fun es s => Inv s ∧ Snapshots es s) hsteady ?_ ?_
    · exact ⟨inv_start buffer, by simp [Snapshots]⟩
    · rintro es s a s' e ⟨hinv, hsnap⟩ hst hs
      obtain ⟨⟨s₁, out⟩, hadv, hp⟩ := Option.map_eq_some_iff.mp hs
      obtain ⟨rfl, rfl⟩ := Prod.mk.inj hp
      obtain ⟨hinv', hout⟩ := inv_advance hinv hst hadv
      refine ⟨hinv', fun x hx => ?_⟩
      rcases List.mem_append.mp hx with hx | hx
      · exact hsnap x hx
      · cases out with
        | none => exact absurd hx (by simp)
        | some n =>
          obtain rfl := List.mem_singleton.mp hx
          exact hout n rfl
  exact fun as' es s hp hr => (hinv as' es s hp hr).2

/-- A push and a pop from their calls to their returns. -/
def pushCall (data : T) : List (Act T) := [.push data, .producer, .producer, .producer, .producer]

def popCall : List (Act T) := [.pop, .consumer, .consumer, .consumer, .consumer]

/-- A pop and then a push go on during the call, which returns what the pop left. -/
theorem snapshots_along_pop_push :
    machine.Along (start fun _ => 0) (pushCall 5 ++ pushCall 6 ++ [.size, .sizer] ++ popCall ++
      pushCall 7 ++ [.sizer]) Snapshots :=
  snapshots_along (fun _ => 0) (pushCall 5 ++ pushCall 6 ++ [.size, .sizer] ++ popCall ++
    pushCall 7 ++ [.sizer]) (Machine.steps_of_checks (by decide +kernel))

/-- After 99 elements went through, two are queued in slots 99 and 0; a pop between the two loads of
`outputIndex` makes `size()` return 101. -/
theorem size_overflows :
    ∃ s, machine.run (start fun _ => 0) ((List.replicate 99 (pushCall 0 ++ popCall)).flatten ++
        pushCall 1 ++ pushCall 2 ++ [.size, .sizer, .sizer] ++ popCall ++ [.sizer]) =
        some (s, [⟨101, [2, 2, 2, 2, 2, 2, 2, 1, 1]⟩]) ∧
      ¬ Snapshots [⟨101, [2, 2, 2, 2, 2, 2, 2, 1, 1]⟩] s := by
  have h : (machine.run (start fun _ => 0) ((List.replicate 99 (pushCall 0 ++ popCall)).flatten ++
      pushCall 1 ++ pushCall 2 ++ [.size, .sizer, .sizer] ++ popCall ++ [.sizer])).map Prod.snd =
      some [⟨101, [2, 2, 2, 2, 2, 2, 2, 1, 1]⟩] := by decide +kernel
  obtain ⟨⟨s, es⟩, hrun, rfl⟩ := Option.map_eq_some_iff.mp h
  refine ⟨s, hrun, fun hsnap => ?_⟩
  exact absurd (hsnap _ (List.mem_singleton_self _)).1 (by decide)

end Sizing

end EchoIocp
