import EchoIocp.Sizing

namespace EchoIocp

open LockFreeCircleQueue

/-- Where a `SendRequest` is. -/
inductive RequestPc
  | push (pc : PushPc ℕ)
  | size (pc : SizePc)
  | front (pc : FrontPc)
  | send (context : ℕ)

/-- Where a `FeedBack_Send` is; `next` is the `Front()` of `SendInternalWork`. -/
inductive FeedBackPc
  | front (pc : FrontPc)
  | pop (pc : PopPc ℕ)
  | empty (pc : EmptyPc)
  | next (pc : FrontPc)
  | send (context : ℕ)

/-- A `WSASend` is outstanding until the `FeedBack_Send` for its completion begins. -/
structure SendRace where
  queue : LockFreeCircleQueue ℕ
  requests : ℕ
  sender : Option RequestPc
  handler : Option FeedBackPc
  outstanding : ℕ

namespace SendRace

inductive Act
  | request
  | feedBack
  | sender
  | handler

def start (buffer : ℕ → ℕ) : SendRace := ⟨.new buffer, 0, none, none, 0⟩

def requestStep (s : SendRace) : RequestPc → SendRace × List ℕ
  | .push pc =>
    match s.queue.pushStep pc with
    | (q, .inl pc) => ({ s with queue := q, sender := some (.push pc) }, [])
    | (q, .inr _) => ({ s with queue := q, sender := some (.size .loadInput) }, [])
  | .size pc =>
    match s.queue.sizeStep pc with
    | .inl pc => ({ s with sender := some (.size pc) }, [])
    | .inr n => ({ s with sender := if n = 1 then some (.front .loadOutput) else none }, [])
  | .front pc =>
    match s.queue.frontStep pc with
    | .inl pc => ({ s with sender := some (.front pc) }, [])
    | .inr context => ({ s with sender := some (.send context) }, [])
  | .send context => ({ s with sender := none, outstanding := s.outstanding + 1 }, [context])

def feedBackStep (s : SendRace) : FeedBackPc → SendRace × List ℕ
  | .front pc =>
    match s.queue.frontStep pc with
    | .inl pc => ({ s with handler := some (.front pc) }, [])
    | .inr _ => ({ s with handler := some (.pop .loadOutput) }, [])
  | .pop pc =>
    match s.queue.popStep pc with
    | (q, .inl pc) => ({ s with queue := q, handler := some (.pop pc) }, [])
    | (q, .inr _) => ({ s with queue := q, handler := some (.empty .loadInput) }, [])
  | .empty pc =>
    match s.queue.emptyStep pc with
    | .inl pc => ({ s with handler := some (.empty pc) }, [])
    | .inr true => ({ s with handler := none }, [])
    | .inr false => ({ s with handler := some (.next .loadOutput) }, [])
  | .next pc =>
    match s.queue.frontStep pc with
    | .inl pc => ({ s with handler := some (.next pc) }, [])
    | .inr context => ({ s with handler := some (.send context) }, [])
  | .send context => ({ s with handler := none, outstanding := s.outstanding + 1 }, [context])

/-- The contexts given to `WSASend` are observed. -/
def machine : Machine SendRace Act ℕ where
  step s
    | .request =>
      match s.sender with
      | none => some ({ s with
          requests := s.requests + 1
          sender := some (.push (.loadInput s.requests)) }, [])
      | some _ => none
    | .feedBack =>
      match s.handler, s.outstanding with
      | none, k + 1 => some ({ s with handler := some (.front .loadOutput), outstanding := k }, [])
      | _, _ => none
    | .sender => s.sender.map s.requestStep
    | .handler => s.handler.map s.feedBackStep

def fronting : Option FeedBackPc → Bool
  | some (.front _) | some (.next _) => true
  | _ => false

/-- The contexts are sent one at a time, each once, in the order of their requests. -/
structure InTurn (passed : List ℕ) (s : SendRace) : Prop where
  order : ∃ n, n ≤ s.requests ∧ passed = List.range n
  single : s.outstanding ≤ 1
  front : fronting s.handler = true → s.queue.contents ≠ []
  rest : s.sender = none → s.handler = none → (0 < s.outstanding ↔ s.queue.contents ≠ [])

/-- A `FeedBack_Send` is not running, or has found nothing more to send. -/
def Harmless (q : LockFreeCircleQueue ℕ) : Option FeedBackPc → Prop
  | none => True
  | some (.empty (.loadOutput input)) => input = q.outputIndex
  | _ => False

/-- `size()` gives `SendRequest` the value 1 only while nothing is being sent. -/
def Timely (s : SendRace) : Act → Prop
  | .sender =>
    match s.sender with
    | some (.size pc) =>
      s.queue.sizeStep pc = .inr 1 → s.outstanding = 0 ∧ Harmless s.queue s.handler
    | _ => True
  | _ => True

instance (q : LockFreeCircleQueue ℕ) (handler : Option FeedBackPc) :
    Decidable (Harmless q handler) := by
  unfold Harmless
  split <;> infer_instance

instance (s : SendRace) (a : Act) : Decidable (Timely s a) := by
  unfold Timely
  split
  · split <;> infer_instance
  · infer_instance

def pushing : Option RequestPc → Option (PushPc ℕ)
  | some (.push pc) => some pc
  | _ => none

/-- `FeedBack_Send` as a consumer of the queue. -/
def watching : Option FeedBackPc → WorkerPc ℕ
  | none => .empty .loadInput
  | some (.front pc) | some (.next pc) => .front pc
  | some (.pop pc) => .pop pc
  | some (.empty pc) => .empty pc
  | some (.send context) => .calling context

/-- `inputIndex` does not move while its only writer is in `size()`. -/
def Sized (q : LockFreeCircleQueue ℕ) : Option RequestPc → Prop
  | some (.size (.loadOutput input)) | some (.size (.reloadOutput input)) => input = q.inputIndex
  | _ => True

def Starting : Option RequestPc → Prop
  | some (.front _) | some (.send _) => True
  | _ => False

/-- `SendRequest` will send the one context queued, or is about to find out that it has to. -/
def Deciding (q : LockFreeCircleQueue ℕ) : Option RequestPc → Prop
  | some (.size .loadInput) | some (.size (.loadOutput _)) | some (.front .loadOutput) => True
  | some (.size (.reloadOutput input)) => input < q.outputIndex
  | some (.front (.read output)) => output = q.outputIndex
  | some (.send context) => context = q.front
  | _ => False

def Popping : Option FeedBackPc → Prop
  | some (.front _) | some (.pop _) => True
  | _ => False

def Passing (q : LockFreeCircleQueue ℕ) : Option FeedBackPc → Prop
  | some (.empty .loadInput) | some (.next _) | some (.send _) => True
  | some (.empty (.loadOutput input)) => input ≠ q.outputIndex
  | _ => False

/-- Who has to send next; the index tells whether the head of the queue was already sent. -/
inductive Phase (s : SendRace) : Bool → Prop
  | flying (ho : s.outstanding = 1) (hh : Harmless s.queue s.handler)
      (hc : s.queue.contents ≠ []) (hs : ¬ Starting s.sender) : Phase s true
  | handling (ho : s.outstanding = 0) (hh : Popping s.handler) (hs : ¬ Starting s.sender) :
      Phase s true
  | passing (ho : s.outstanding = 0) (hh : Passing s.queue s.handler)
      (hs : ¬ Starting s.sender) : Phase s false
  | resting (ho : s.outstanding = 0) (hh : Harmless s.queue s.handler)
      (hc : s.queue.contents = []) (hs : ¬ Starting s.sender) : Phase s false
  | deciding (ho : s.outstanding = 0) (hh : Harmless s.queue s.handler)
      (hc : s.queue.contents.length = 1) (hs : Deciding s.queue s.sender) : Phase s false

/-- After `popped` pops the queue holds the contexts from number `popped` on. -/
structure Inv (passed : List ℕ) (s : SendRace) (popped : ℕ) (started : Bool) : Prop where
  shared : s.queue.Shared (pushing s.sender) (watching s.handler)
  sized : Sized s.queue s.sender
  fresh : ∀ pc ∈ pushing s.sender, pc.data + 1 = s.requests
  stored : popped + s.queue.contents.length + (pushing s.sender).toList.length = s.requests
  contents : s.queue.contents = List.range' popped s.queue.contents.length
  passed : passed = List.range (popped + started.toNat)
  phase : Phase s started

theorem inv_start (buffer : ℕ → ℕ) : Inv [] (start buffer) 0 false where
  shared := new_shared buffer
  sized := trivial
  fresh := by simp [start, pushing]
  stored := by simp [start, pushing]
  contents := by simp [start]
  passed := rfl
  phase := .resting rfl trivial (new_contents buffer) fun h => h

variable {s s' : SendRace} {passed : List ℕ} {popped : ℕ} {started : Bool} {a : Act} {out : List ℕ}

/-- A `FeedBack_Send` that has not popped yet, or reads the next context, finds the queue nonempty. -/
theorem Inv.contents_ne (h : Inv passed s popped started)
    (hh : Popping s.handler ∨ fronting s.handler = true) : s.queue.contents ≠ [] := by
  have hcons := h.shared.consumer
  have hn : s.queue.Nonempty := by
    match s.handler, hcons, hh with
    | some (.front .loadOutput), hc, _ | some (.next .loadOutput), hc, _ => exact hc
    | some (.front (.read _)), hc, _ | some (.next (.read _)), hc, _ => exact hc.1
    | some (.pop .loadOutput), hc, _ => exact hc
    | some (.pop (.loadInput _)), hc, _ | some (.pop (.read _)), hc, _ => exact hc.1
    | some (.pop (.storeOutput _ _)), hc, _ => exact hc.1
    | none, _, hh => exact (hh.elim id Bool.noConfusion).elim
    | some (.empty _), _, hh => exact (hh.elim id Bool.noConfusion).elim
    | some (.send _), _, hh => exact (hh.elim id Bool.noConfusion).elim
  intro hnil
  exact hn ((contents_eq_nil h.shared.inRange).mp hnil)

theorem Inv.inTurn (h : Inv passed s popped started) : InTurn passed s := by
  have hstored := h.stored
  refine ⟨⟨_, ?_, h.passed⟩, ?_, fun hf => h.contents_ne (.inr hf), ?_⟩
  · cases started with
    | false =>
      rw [Bool.toNat_false]
      omega
    | true =>
      have hne : s.queue.contents ≠ [] := by
        cases h.phase with
        | flying _ _ hc _ => exact hc
        | handling _ hh _ => exact h.contents_ne (.inl hh)
      have hpos := List.length_pos_iff.mpr hne
      rw [Bool.toNat_true]
      omega
  · cases h.phase <;> omega
  · intro hs hh
    cases h.phase with
    | flying ho _ hc _ => exact ⟨fun _ => hc, fun _ => by omega⟩
    | handling _ hp _ =>
      rw [hh] at hp
      exact hp.elim
    | passing _ hp _ =>
      rw [hh] at hp
      exact hp.elim
    | resting ho _ hc _ => exact ⟨fun hpos => by omega, fun hne => absurd hc hne⟩
    | deciding _ _ _ hd =>
      rw [hs] at hd
      exact hd.elim

theorem harmless_congr (handler : Option FeedBackPc) {q q' : LockFreeCircleQueue ℕ}
    (hi : q'.outputIndex = q.outputIndex) : Harmless q' handler ↔ Harmless q handler := by
  unfold Harmless
  rw [hi]

theorem passing_congr (handler : Option FeedBackPc) {q q' : LockFreeCircleQueue ℕ}
    (hi : q'.outputIndex = q.outputIndex) : Passing q' handler ↔ Passing q handler := by
  unfold Passing
  rw [hi]

theorem not_harmless_of_popping {q : LockFreeCircleQueue ℕ} {handler : Option FeedBackPc}
    (hp : Popping handler) : ¬ Harmless q handler := by
  match handler, hp with
  | some (.front _), _ | some (.pop _), _ => exact fun hf => hf

theorem not_harmless_of_passing {q : LockFreeCircleQueue ℕ} {handler : Option FeedBackPc}
    (hp : Passing q handler) : ¬ Harmless q handler := by
  match handler, hp with
  | some (.empty .loadInput), _ | some (.next _), _ | some (.send _), _ => exact fun hf => hf
  | some (.empty (.loadOutput _)), hp => exact hp

theorem Phase.sender (h : Phase s started) (ho : s'.outstanding = s.outstanding)
    (hh : s'.handler = s.handler) (hi : s'.queue.outputIndex = s.queue.outputIndex)
    (hc : s'.queue.contents = s.queue.contents) (hs : ¬ Starting s'.sender)
    (hd : s.queue.contents.length = 1 → Deciding s.queue s.sender →
      Deciding s'.queue s'.sender) : Phase s' started := by
  -- steps of `SendRequest` that neither add a context nor decide anything leave the phase alone
  have hharm := harmless_congr s.handler hi
  have hpass := passing_congr s.handler hi
  rw [← hh] at hharm hpass
  cases h with
  | flying ho' hh' hc' _ => exact .flying (ho.trans ho') (hharm.mpr (hh ▸ hh')) (hc ▸ hc') hs
  | handling ho' hh' _ => exact .handling (ho.trans ho') (hh ▸ hh') hs
  | passing ho' hh' _ => exact .passing (ho.trans ho') (hpass.mpr (hh ▸ hh')) hs
  | resting ho' hh' hc' _ => exact .resting (ho.trans ho') (hharm.mpr (hh ▸ hh')) (hc.trans hc') hs
  | deciding ho' hh' hc' hd' =>
    exact .deciding (ho.trans ho') (hharm.mpr (hh ▸ hh')) (hc ▸ hc') (hd hc' hd')

theorem Phase.store (h : Phase s started) {context : ℕ} (ho : s'.outstanding = s.outstanding)
    (hh : s'.handler = s.handler) (hi : s'.queue.outputIndex = s.queue.outputIndex)
    (hc : s'.queue.contents = s.queue.contents ++ [context]) (hn : ¬ Deciding s.queue s.sender)
    (hs : s'.sender = some (.size .loadInput)) : Phase s' started := by
  -- a new context is for whoever is at work; if nobody is, its `SendRequest` has to send it
  have hharm := harmless_congr s.handler hi
  have hpass := passing_congr s.handler hi
  rw [← hh] at hharm hpass
  have hs' : ¬ Starting s'.sender := by
    rw [hs]
    exact fun hf => hf
  cases h with
  | flying ho' hh' _ _ =>
    refine .flying (ho.trans ho') (hharm.mpr (hh ▸ hh')) ?_ hs'
    rw [hc]
    exact List.append_ne_nil_of_right_ne_nil _ (List.cons_ne_nil _ _)
  | handling ho' hh' _ => exact .handling (ho.trans ho') (hh ▸ hh') hs'
  | passing ho' hh' _ => exact .passing (ho.trans ho') (hpass.mpr (hh ▸ hh')) hs'
  | resting ho' hh' hc' _ =>
    refine .deciding (ho.trans ho') (hharm.mpr (hh ▸ hh')) ?_ ?_
    · rw [hc, hc']
      rfl
    · rw [hs]
      trivial
  | deciding _ _ _ hd => exact absurd hd hn

theorem inv_request (h : Inv passed s popped started)
    (hs : machine.step s .request = some (s', out)) : Inv (passed ++ out) s' popped started := by
  unfold machine at hs
  cases hp : s.sender with
  | some pc => simp [hp] at hs
  | none =>
    simp only [hp, Option.some.injEq, Prod.mk.injEq] at hs
    obtain ⟨rfl, rfl⟩ := hs
    have hshared := h.shared
    have hstored := h.stored
    rw [hp] at hshared hstored
    refine ⟨hshared.call _, trivial, ?_, ?_, h.contents, by rw [List.append_nil, h.passed], ?_⟩
    · intro pc hpc
      obtain rfl := Option.some.inj hpc
      rfl
    · exact congrArg (· + 1) hstored
    · refine h.phase.sender rfl rfl rfl rfl (fun hf => hf) fun _ hd => ?_
      rw [hp] at hd
      exact hd.elim

theorem inv_push (h : Inv passed s popped started) {pc : PushPc ℕ}
    (hp : s.sender = some (.push pc)) (hroom : s.queue.contents.length + 1 ≠ maxQueueSize)
    (hs : s.requestStep (.push pc) = (s', out)) : Inv (passed ++ out) s' popped started := by
  have hshared := h.shared
  have hstored := h.stored
  have hcontents := h.contents
  have hfresh := h.fresh
  rw [hp] at hshared hstored hfresh
  have hdata : pc.data + 1 = s.requests := hfresh pc rfl
  have hn : ¬ Deciding s.queue s.sender := by
    rw [hp]
    exact fun hf => hf
  have hi := (pushStep_ok hshared.inRange hshared.producer).2.2.1
  have hcases := pushStep_cases hshared
  cases hq : s.queue.pushStep pc with
  | mk q r =>
    simp only [requestStep, hq] at hs hcases hi
    obtain ⟨pc', rfl, hd, hsh, hcont⟩ | ⟨-, hfull⟩ | ⟨rfl, hsh, hcont⟩ := hcases
    · obtain ⟨rfl, rfl⟩ := Prod.mk.inj hs
      refine ⟨hsh, trivial, ?_, ?_, ?_, by rw [List.append_nil, h.passed], ?_⟩
      · intro pc'' hpc
        obtain rfl := Option.some.inj hpc
        rw [hd]
        exact hdata
      · rw [← hstored, ← hcont]
        rfl
      · rw [← hcont] at hcontents
        exact hcontents
      · exact h.phase.sender rfl rfl hi hcont (fun hf => hf) fun _ hd => absurd hd hn
    · exact absurd hfull hroom
    · obtain ⟨rfl, rfl⟩ := Prod.mk.inj hs
      have hlen : q.contents.length = s.queue.contents.length + 1 := by
        rw [hcont, List.length_append, List.length_singleton]
      have hstored : popped + s.queue.contents.length + 1 = s.requests := hstored
      refine ⟨hsh, trivial, by simp [pushing], ?_, ?_, by rw [List.append_nil, h.passed], ?_⟩
      · show popped + q.contents.length + 0 = s.requests
        omega
      · -- the new context has the next number
        show q.contents = List.range' popped q.contents.length
        rw [hlen, List.range'_concat, ← hcontents, hcont, show pc.data = popped + 1 *
          s.queue.contents.length by omega]
      · exact h.phase.store rfl rfl hi hcont hn rfl

/-- What `size()` returns when it ends, by the number of contexts queued. -/
theorem size_result {q : LockFreeCircleQueue ℕ} {pc : SizePc} {n : ℕ}
    (hz : Sized q (some (.size pc))) (hr : q.InRange)
    (hd : q.contents = [] ∨ Deciding q (some (.size pc)))
    (hn : q.sizeStep pc = .inr n) : n = 1 ↔ q.contents.length = 1 := by
  have hlen := contents_length (q := q)
  have hnil := contents_eq_nil hr
  unfold Circular.occupied at hlen
  cases pc with
  | loadInput => cases hn
  | loadOutput input =>
    obtain rfl : input = q.inputIndex := hz
    unfold sizeStep at hn
    simp only at hn
    split_ifs at hn with hle
    obtain rfl := Sum.inr.inj hn
    rw [hlen, if_pos hle]
  | reloadOutput input =>
    obtain rfl : input = q.inputIndex := hz
    obtain rfl := Sum.inr.inj hn
    rcases hd with hd | hd
    · -- a loaded value that wrapped before the queue ran empty gives 100
      have ho := hnil.mp hd
      have hlt := hr.1
      rw [hd, List.length_nil]
      simp only [maxQueueSize] at *
      omega
    · have hlt : q.inputIndex < q.outputIndex := hd
      rw [hlen, if_neg (by omega)]

theorem inv_size (h : Inv passed s popped started) {pc : SizePc}
    (hp : s.sender = some (.size pc)) (htimely : Timely s .sender)
    (hs : s.requestStep (.size pc) = (s', out)) : Inv (passed ++ out) s' popped started := by
  have hshared := h.shared
  have hstored := h.stored
  have hsized := h.sized
  have hr := h.shared.inRange
  unfold Timely at htimely
  rw [hp] at hshared hstored hsized
  simp only [hp] at htimely
  cases hq : s.queue.sizeStep pc with
  | inl pc' =>
    simp only [requestStep, hq] at hs
    obtain ⟨rfl, rfl⟩ := Prod.mk.inj hs
    have hnext : Sized s.queue (some (.size pc')) ∧ Deciding s.queue (some (.size pc')) := by
      cases pc with
      | loadInput =>
        obtain rfl := Sum.inl.inj hq
        exact ⟨rfl, trivial⟩
      | loadOutput input =>
        unfold sizeStep at hq
        simp only at hq
        split_ifs at hq with hle
        obtain rfl := Sum.inl.inj hq
        exact ⟨hsized, Nat.lt_of_not_le hle⟩
      | reloadOutput input => cases hq
    refine ⟨hshared, hnext.1, by simp [pushing], hstored, h.contents,
      by rw [List.append_nil, h.passed], ?_⟩
    exact h.phase.sender rfl rfl rfl rfl (fun hf => hf) fun _ _ => hnext.2
  | inr n =>
    have hresult := fun hd => size_result hsized hr hd hq
    simp only [requestStep, hq] at hs
    obtain ⟨rfl, rfl⟩ := Prod.mk.inj hs
    by_cases hn : n = 1
    · subst hn
      obtain ⟨ho, hharm⟩ := htimely hq
      refine ⟨hshared, trivial, by simp [pushing], hstored, h.contents,
        by rw [List.append_nil, h.passed], ?_⟩
      cases h.phase with
      | flying ho' => omega
      | handling _ hh _ => exact absurd hharm (not_harmless_of_popping hh)
      | passing _ hh _ => exact absurd hharm (not_harmless_of_passing hh)
      | resting _ _ hc _ =>
        have hlen := (hresult (.inl hc)).mp rfl
        rw [hc] at hlen
        exact absurd hlen (by simp)
      | deciding _ _ hc _ => exact .deciding ho hharm hc trivial
    · simp only [if_neg hn]
      refine ⟨hshared, trivial, by simp [pushing], hstored, h.contents,
        by rw [List.append_nil, h.passed], ?_⟩
      refine h.phase.sender rfl rfl rfl rfl (fun hf => hf) fun hlen hd => ?_
      rw [hp] at hd
      exact absurd ((hresult (.inr hd)).mpr hlen) hn

theorem Inv.deciding (h : Inv passed s popped started) (hst : Starting s.sender) :
    started = false ∧ s.outstanding = 0 ∧ Harmless s.queue s.handler ∧
      s.queue.contents.length = 1 ∧ Deciding s.queue s.sender := by
  cases h.phase with
  | flying _ _ _ hs | passing _ _ hs | resting _ _ _ hs => exact absurd hst hs
  | handling _ _ hs => exact absurd hst hs
  | deciding ho hh hc hd => exact ⟨rfl, ho, hh, hc, hd⟩

theorem Inv.front_eq (h : Inv passed s popped started) (hc : s.queue.contents ≠ []) :
    s.queue.front = popped := by
  obtain ⟨context, rest, hcons⟩ := List.exists_cons_of_ne_nil hc
  have hcontents := h.contents
  rw [hcons, List.length_cons, List.range'_succ] at hcontents
  rw [front_of_cons h.shared.inRange hcons]
  exact (List.cons.inj hcontents).1

theorem Inv.passed_concat (h : Inv passed s popped false) :
    passed ++ [popped] = List.range (popped + true.toNat) := by
  rw [h.passed, Bool.toNat_false, Bool.toNat_true, Nat.add_zero, List.range_succ]

theorem inv_requestFront (h : Inv passed s popped started) {pc : FrontPc}
    (hp : s.sender = some (.front pc)) (hs : s.requestStep (.front pc) = (s', out)) :
    Inv (passed ++ out) s' popped started := by
  have hshared := h.shared
  have hstored := h.stored
  obtain ⟨rfl, ho, hh, hc, hd⟩ := h.deciding (by rw [hp]; trivial)
  rw [hp] at hshared hstored hd
  cases pc with
  | loadOutput =>
    obtain ⟨rfl, rfl⟩ := Prod.mk.inj hs
    exact ⟨hshared, trivial, by simp [pushing], hstored, h.contents,
      by rw [List.append_nil, h.passed], .deciding ho hh hc rfl⟩
  | read output =>
    obtain rfl : output = s.queue.outputIndex := hd
    obtain ⟨rfl, rfl⟩ := Prod.mk.inj hs
    exact ⟨hshared, trivial, by simp [pushing], hstored, h.contents,
      by rw [List.append_nil, h.passed], .deciding ho hh hc rfl⟩

theorem inv_requestSend (h : Inv passed s popped started) {context : ℕ}
    (hp : s.sender = some (.send context)) (hs : s.requestStep (.send context) = (s', out)) :
    Inv (passed ++ out) s' popped true := by
  have hshared := h.shared
  have hstored := h.stored
  obtain ⟨rfl, ho, hh, hc, hd⟩ := h.deciding (by rw [hp]; trivial)
  rw [hp] at hshared hstored hd
  have hne : s.queue.contents ≠ [] := by
    intro hnil
    simp [hnil] at hc
  obtain rfl : context = popped := hd.trans (h.front_eq hne)
  obtain ⟨rfl, rfl⟩ := Prod.mk.inj hs
  exact ⟨hshared, trivial, by simp [pushing], hstored, h.contents, h.passed_concat,
    .flying (congrArg (· + 1) ho) hh hne fun hf => hf⟩

theorem inv_feedBack (h : Inv passed s popped started)
    (hs : machine.step s .feedBack = some (s', out)) : Inv (passed ++ out) s' popped started := by
  have hshared := h.shared
  unfold machine at hs
  cases hp : s.handler with
  | some pc => simp [hp] at hs
  | none =>
    cases hk : s.outstanding with
    | zero => simp [hp, hk] at hs
    | succ k =>
      simp only [hp, hk, Option.some.injEq, Prod.mk.injEq] at hs
      obtain ⟨rfl, rfl⟩ := hs
      cases h.phase with
      | flying ho hh hc hst =>
        have hn : s.queue.Nonempty := fun he => hc ((contents_eq_nil hshared.inRange).mpr he)
        exact ⟨⟨hshared.inRange, hshared.producer, hn⟩, h.sized, h.fresh, h.stored, h.contents,
          by rw [List.append_nil, h.passed], .handling (Nat.succ.inj (hk.symm.trans ho)) trivial hst⟩
      | handling ho | passing ho | resting ho | deciding ho => omega

/-- Until it pops, a `FeedBack_Send` handles the context at the head. -/
theorem Inv.handling (h : Inv passed s popped started) (hh : Popping s.handler) :
    started = true ∧ s.outstanding = 0 ∧ ¬ Starting s.sender := by
  cases h.phase with
  | flying _ hf | resting _ hf | deciding _ hf => exact absurd hf (not_harmless_of_popping hh)
  | handling ho _ hs => exact ⟨rfl, ho, hs⟩
  | passing _ hf _ =>
    match s.handler, hh, hf with
    | some (.front _), _, hf | some (.pop _), _, hf => exact hf.elim

/-- After that it has to send the next context. -/
theorem Inv.passing (h : Inv passed s popped started) (hh : Passing s.queue s.handler) :
    started = false ∧ s.outstanding = 0 ∧ ¬ Starting s.sender := by
  cases h.phase with
  | flying _ hf | resting _ hf | deciding _ hf => exact absurd hf (not_harmless_of_passing hh)
  | passing ho _ hs => exact ⟨rfl, ho, hs⟩
  | handling _ hf _ =>
    match s.handler, hh, hf with
    | some (.front _), hh, _ | some (.pop _), hh, _ => exact hh.elim

theorem Inv.handler (h : Inv passed s popped started) (handler : Option FeedBackPc)
    (hcons : s.queue.ConsumerOk (watching handler)) (hphase : Phase { s with handler } started) :
    Inv (passed ++ []) { s with handler } popped started :=
  ⟨⟨h.shared.inRange, h.shared.producer, hcons⟩, h.sized, h.fresh, h.stored, h.contents,
    by rw [List.append_nil, h.passed], hphase⟩

theorem inv_front (h : Inv passed s popped started) {pc : FrontPc}
    (hp : s.handler = some (.front pc)) (hs : s.feedBackStep (.front pc) = (s', out)) :
    Inv (passed ++ out) s' popped started := by
  have hcons := h.shared.consumer
  obtain ⟨rfl, ho, hst⟩ := h.handling (by rw [hp]; trivial)
  rw [hp] at hcons
  cases pc with
  | loadOutput =>
    obtain ⟨rfl, rfl⟩ := Prod.mk.inj hs
    exact h.handler (some (.front (.read _))) ⟨hcons, rfl⟩ (.handling ho trivial hst)
  | read output =>
    obtain ⟨rfl, rfl⟩ := Prod.mk.inj hs
    exact h.handler (some (.pop .loadOutput)) hcons.1 (.handling ho trivial hst)

theorem inv_pop (h : Inv passed s popped started) {pc : PopPc ℕ}
    (hp : s.handler = some (.pop pc)) (hs : s.feedBackStep (.pop pc) = (s', out)) :
    ∃ popped' started', Inv (passed ++ out) s' popped' started' := by
  have hcons := h.shared.consumer
  obtain ⟨rfl, ho, hst⟩ := h.handling (by rw [hp]; trivial)
  rw [hp] at hcons
  cases pc with
  | loadOutput =>
    obtain ⟨rfl, rfl⟩ := Prod.mk.inj hs
    exact ⟨_, _, h.handler (some (.pop (.loadInput _))) ⟨hcons, rfl⟩ (.handling ho trivial hst)⟩
  | loadInput output =>
    obtain ⟨hn, rfl⟩ := hcons
    have hne : s.queue.outputIndex ≠ s.queue.inputIndex := hn
    simp only [feedBackStep, popStep, if_neg hne] at hs
    obtain ⟨rfl, rfl⟩ := Prod.mk.inj hs
    exact ⟨_, _, h.handler (some (.pop (.read _))) ⟨hn, rfl⟩ (.handling ho trivial hst)⟩
  | read output =>
    obtain ⟨rfl, rfl⟩ := Prod.mk.inj hs
    obtain ⟨hn, rfl⟩ := hcons
    exact ⟨_, _, h.handler (some (.pop (.storeOutput _ _))) ⟨hn, rfl, rfl⟩
      (.handling ho trivial hst)⟩
  | storeOutput output context =>
    obtain ⟨hn, rfl, rfl⟩ := hcons
    obtain ⟨rfl, rfl⟩ := Prod.mk.inj hs
    have hr := h.shared.inRange
    have hcontents := h.contents
    have hstored := h.stored
    have htail := contents_storeOutput hr hn
    rw [htail, List.length_cons, List.range'_succ] at hcontents
    rw [htail, List.length_cons] at hstored
    refine ⟨popped + 1, false, ?_, ?_, h.fresh, ?_, (List.cons.inj hcontents).2,
      by rw [List.append_nil, h.passed]; rfl, .passing ho trivial hst⟩
    · exact ⟨⟨hr.1, Nat.mod_lt _ (by decide)⟩, h.shared.producer.storeOutput hr hn, trivial⟩
    · exact h.sized
    · have hassoc (n k : ℕ) : popped + 1 + n + k = popped + (n + 1) + k := by omega
      exact (hassoc _ _).trans hstored

theorem inv_empty (h : Inv passed s popped started) {pc : EmptyPc}
    (hp : s.handler = some (.empty pc)) (hs : s.feedBackStep (.empty pc) = (s', out)) :
    Inv (passed ++ out) s' popped started := by
  have hcons := h.shared.consumer
  rw [hp] at hcons
  cases pc with
  | loadInput =>
    obtain ⟨rfl, ho, hst⟩ := h.passing (by rw [hp]; trivial)
    obtain ⟨rfl, rfl⟩ := Prod.mk.inj hs
    refine h.handler (some (.empty (.loadOutput s.queue.inputIndex))) (fun hne => hne.symm) ?_
    by_cases he : s.queue.inputIndex = s.queue.outputIndex
    · exact .resting ho he ((contents_eq_nil h.shared.inRange).mpr he.symm) hst
    · exact .passing ho he hst
  | loadOutput input =>
    by_cases he : input = s.queue.outputIndex
    · have hb : (input == s.queue.outputIndex) = true := beq_iff_eq.mpr he
      simp only [feedBackStep, emptyStep, hb] at hs
      obtain ⟨rfl, rfl⟩ := Prod.mk.inj hs
      refine h.handler none trivial ?_
      cases h.phase with
      | flying ho _ hc hst => exact .flying ho trivial hc hst
      | resting ho _ hc hst => exact .resting ho trivial hc hst
      | deciding ho _ hc hd => exact .deciding ho trivial hc hd
      | handling _ hh _ =>
        rw [hp] at hh
        exact hh.elim
      | passing _ hh _ =>
        rw [hp] at hh
        exact absurd he hh
    · have hb : (input == s.queue.outputIndex) = false := beq_false_of_ne he
      simp only [feedBackStep, emptyStep, hb] at hs
      obtain ⟨rfl, rfl⟩ := Prod.mk.inj hs
      obtain ⟨rfl, ho, hst⟩ := h.passing (by rw [hp]; exact he)
      exact h.handler (some (.next .loadOutput)) (hcons he) (.passing ho trivial hst)

theorem inv_next (h : Inv passed s popped started) {pc : FrontPc}
    (hp : s.handler = some (.next pc)) (hs : s.feedBackStep (.next pc) = (s', out)) :
    Inv (passed ++ out) s' popped started := by
  have hcons := h.shared.consumer
  obtain ⟨rfl, ho, hst⟩ := h.passing (by rw [hp]; trivial)
  rw [hp] at hcons
  cases pc with
  | loadOutput =>
    obtain ⟨rfl, rfl⟩ := Prod.mk.inj hs
    exact h.handler (some (.next (.read _))) ⟨hcons, rfl⟩ (.passing ho trivial hst)
  | read output =>
    obtain ⟨hn, rfl⟩ := hcons
    obtain ⟨rfl, rfl⟩ := Prod.mk.inj hs
    exact h.handler (some (.send _)) ⟨hn, rfl⟩ (.passing ho trivial hst)

theorem inv_send (h : Inv passed s popped started) {context : ℕ}
    (hp : s.handler = some (.send context)) (hs : s.feedBackStep (.send context) = (s', out)) :
    Inv (passed ++ out) s' popped true := by
  have hcons := h.shared.consumer
  obtain ⟨rfl, ho, hst⟩ := h.passing (by rw [hp]; trivial)
  rw [hp] at hcons
  obtain ⟨hn, hcontext⟩ := hcons
  have hne : s.queue.contents ≠ [] := fun hnil => hn ((contents_eq_nil h.shared.inRange).mp hnil)
  obtain rfl : context = popped := hcontext.trans (h.front_eq hne)
  obtain ⟨rfl, rfl⟩ := Prod.mk.inj hs
  exact ⟨⟨h.shared.inRange, h.shared.producer, trivial⟩, h.sized, h.fresh, h.stored, h.contents,
    h.passed_concat, .flying (congrArg (· + 1) ho) trivial hne hst⟩

theorem inv_step (h : Inv passed s popped started)
    (hroom : s.queue.contents.length + 1 ≠ maxQueueSize) (htimely : Timely s a)
    (hs : machine.step s a = some (s', out)) :
    ∃ popped' started', Inv (passed ++ out) s' popped' started' := by
  cases a with
  | request => exact ⟨_, _, inv_request h hs⟩
  | feedBack => exact ⟨_, _, inv_feedBack h hs⟩
  | sender =>
    obtain ⟨pc, hp, hs⟩ := Option.map_eq_some_iff.mp hs
    cases pc with
    | push pc => exact ⟨_, _, inv_push h hp hroom hs⟩
    | size pc => exact ⟨_, _, inv_size h hp htimely hs⟩
    | front pc => exact ⟨_, _, inv_requestFront h hp hs⟩
    | send context => exact ⟨_, _, inv_requestSend h hp hs⟩
  | handler =>
    obtain ⟨pc, hp, hs⟩ := Option.map_eq_some_iff.mp hs
    cases pc with
    | front pc => exact ⟨_, _, inv_front h hp hs⟩
    | pop pc => exact inv_pop h hp hs
    | empty pc => exact ⟨_, _, inv_empty h hp hs⟩
    | next pc => exact ⟨_, _, inv_next h hp hs⟩
    | send context => exact ⟨_, _, inv_send h hp hs⟩

/-- With room in the queue the contexts are sent in turn as long as `size()` gives `SendRequest` the
value 1 only while nothing is being sent. -/
theorem inTurn_along (buffer : ℕ → ℕ) (as : List Act)
    (hroom : machine.Along (start buffer) as fun _ s =>
      s.queue.contents.length + 1 ≠ maxQueueSize)
    (htimely : machine.Steps (start buffer) as Timely) :
    machine.Along (start buffer) as InTurn := by
  have hinv : machine.Along (start buffer) as fun passed s =>
      ∃ popped started, Inv passed s popped started := by
    refine Machine.Steps.along (C := fun s a => s.queue.contents.length + 1 ≠ maxQueueSize ∧
      Timely s a) ?_ ⟨_, _, inv_start buffer⟩ ?_
    · intro bs a passed s hp hr
      exact ⟨hroom bs passed s ((List.prefix_append bs [a]).trans hp) hr,
        htimely bs a passed s hp hr⟩
    · rintro passed s a s' out ⟨popped, started, hinv⟩ ⟨hlen, ht⟩ hs
      exact inv_step hinv hlen ht hs
  intro bs passed s hp hr
  obtain ⟨popped, started, h⟩ := hinv bs passed s hp hr
  exact h.inTurn

/-- The four steps of a push. -/
def pushSteps : List Act := [.request, .sender, .sender, .sender, .sender]

/-- `size()` and `Front()` of a `SendRequest` that finds its context alone, and its `WSASend`. -/
def sendSteps : List Act := [.sender, .sender, .sender, .sender, .sender]

/-- A `FeedBack_Send` up to the end of its `pop()`. -/
def popSteps : List Act :=
  [.feedBack, .handler, .handler, .handler, .handler, .handler, .handler]

theorem inTurn_along_two_requests :
    machine.Along (start fun _ => 0)
      (pushSteps ++ sendSteps ++ pushSteps ++ [.sender, .sender] ++ popSteps ++
        [.handler, .handler, .handler, .handler, .handler]) InTurn := by
  refine inTurn_along (fun _ => 0) (pushSteps ++ sendSteps ++ pushSteps ++ [.sender, .sender] ++
    popSteps ++ [.handler, .handler, .handler, .handler, .handler]) ?_ ?_
  · exact Machine.along_of_inits (by decide +kernel)
  · exact Machine.steps_of_checks (by decide +kernel)

/-- The second context is pushed between `pop()` and `empty()` of the handler for the first: both
threads find it alone and send it. -/
theorem sent_twice :
    ∃ s, machine.run (start fun _ => 0) (pushSteps ++ sendSteps ++ popSteps ++ pushSteps ++
        sendSteps ++ [.handler, .handler, .handler, .handler, .handler]) = some (s, [0, 1, 1]) ∧
      s.outstanding = 2 ∧ ¬ InTurn [0, 1, 1] s := by
  have h : (machine.run (start fun _ => 0) (pushSteps ++ sendSteps ++ popSteps ++ pushSteps ++
      sendSteps ++ [.handler, .handler, .handler, .handler, .handler])).map
        (fun r => (r.1.outstanding, r.2)) = some (2, [0, 1, 1]) := by decide +kernel
  obtain ⟨⟨s, passed⟩, hrun, he⟩ := Option.map_eq_some_iff.mp h
  obtain ⟨ho, rfl⟩ : s.outstanding = 2 ∧ passed = [0, 1, 1] := by simpa using he
  refine ⟨s, hrun, ho, fun hturn => ?_⟩
  have hsingle := hturn.single
  omega

end SendRace

end EchoIocp
