import EchoIocp.Handlers

namespace EchoIocp

open ClientDataSet EchoServer

structure Counter where
  server : EchoServer
  acceptThread : Option AcceptPc
  disconnectThread : Option DisconnectPc

namespace Counter

inductive Act
  | callAccept (clientID : ℤ)
  | accept (errorCode : ℤ)
  | callDisconnect (clientID : ℤ)
  | disconnect (errorCode : ℤ)

inductive Event
  | accepted
  | disconnected
  deriving DecidableEq

/-- A thread calls its handler for an id in the map when its last call returned. -/
def machine : Machine Counter Act Event where
  step s
    | .callAccept clientID =>
      if s.acceptThread.isNone ∧ clientID ∈ s.server.keys then
        some ({ s with acceptThread := some (.finder clientID) }, [])
      else none
    | .accept errorCode =>
      s.acceptThread.map fun pc =>
        let r := s.server.acceptStep errorCode pc
        ({ s with server := r.1, acceptThread := r.2.1 },
          if r.2.1.isNone then [.accepted] else [])
    | .callDisconnect clientID =>
      if s.disconnectThread.isNone ∧ clientID ∈ s.server.keys then
        some ({ s with disconnectThread := some (.finder clientID) }, [])
      else none
    | .disconnect errorCode =>
      s.disconnectThread.map fun pc =>
        let r := s.server.disconnectStep errorCode pc
        ({ s with server := r.1, disconnectThread := r.2.1 },
          if r.2.1.isNone then [.disconnected] else [])

def start (server : EchoServer) : Counter := ⟨server, none, none⟩

/-- With neither thread in a handler the counter tells the calls that completed. -/
def Balanced (initial : ℤ) (es : List Event) (s : Counter) : Prop :=
  s.acceptThread = none → s.disconnectThread = none →
    s.server.currentClientCount = initial + es.count .accepted - es.count .disconnected

/-- A thread about to store the counter stores over the value it loaded. -/
def Fresh (s : Counter) : Act → Prop
  | .accept _ => ∀ v, s.acceptThread = some (.storeCount v) → v = s.server.currentClientCount
  | .disconnect _ => ∀ target v, s.disconnectThread = some (.storeCount target v) →
      v = s.server.currentClientCount
  | .callAccept _ | .callDisconnect _ => True

def acceptStored : Option AcceptPc → ℤ
  | some .loadMax | some (.isEmpty _) | some (.prepare _) => 1
  | _ => 0

def disconnectStored : Option DisconnectPc → ℤ
  | some (.tryAccept _ _) => 1
  | _ => 0

def returned {Pc : Type} : Option Pc → ℤ
  | none => 1
  | some _ => 0

def Ledger (initial : ℤ) (es : List Event) (s : Counter) : Prop :=
  s.server.currentClientCount = initial + (es.count .accepted + acceptStored s.acceptThread) -
    (es.count .disconnected + disconnectStored s.disconnectThread)

structure Found (s : Counter) : Prop where
  accept : ∀ id, s.acceptThread = some (.finder id) → id ∈ s.server.keys
  disconnect : ∀ id, s.disconnectThread = some (.finder id) → id ∈ s.server.keys

variable {server : EchoServer} {s s' : Counter} {a : Act} {as : List Act} {es out : List Event}
  {initial : ℤ}

theorem acceptStep_cases {s : EchoServer} {pc : AcceptPc} (errorCode : ℤ)
    (hf : ∀ id, pc = .finder id → id ∈ s.keys) :
    (∀ id ∈ s.keys, id ∈ (s.acceptStep errorCode pc).1.keys) ∧
      ((∃ v, pc = .storeCount v ∧ s.acceptStep errorCode pc =
        ({ s with currentClientCount := v + 1 }, some .loadMax, [])) ∨
      ((∀ v, pc ≠ .storeCount v) ∧
        (s.acceptStep errorCode pc).1.currentClientCount = s.currentClientCount ∧
        (∀ id, (s.acceptStep errorCode pc).2.1 ≠ some (.finder id)) ∧
        acceptStored (s.acceptStep errorCode pc).2.1 +
          returned (s.acceptStep errorCode pc).2.1 = acceptStored (some pc))) := by
  cases pc with
  | storeCount v => exact ⟨fun _ h => h, .inl ⟨v, rfl, rfl⟩⟩
  | finder id =>
    refine ⟨fun _ h => h, .inr ⟨by simp, rfl, ?_, ?_⟩⟩
    · simp [acceptStep]
    · obtain ⟨target, ht⟩ := Option.isSome_iff_exists.mp (finder_isSome.mpr (hf id rfl))
      simp [acceptStep, ht, acceptStored, returned]
  | feedBack target => exact ⟨fun _ h => h, .inr ⟨by simp, rfl, by simp [acceptStep], rfl⟩⟩
  | ready target pc =>
    simp only [acceptStep]
    refine ⟨fun _ h => h, .inr ⟨by simp, rfl, ?_, ?_⟩⟩
    · split <;> simp
    · split <;> rfl
  | loadCount => exact ⟨fun _ h => h, .inr ⟨by simp, rfl, by simp [acceptStep], rfl⟩⟩
  | loadMax => exact ⟨fun _ h => h, .inr ⟨by simp, rfl, by simp [acceptStep], rfl⟩⟩
  | isEmpty currentMax =>
    by_cases hgrow : currentMax - s.currentClientCount ≤ 0
    · rw [acceptStep_empty errorCode hgrow]
      exact ⟨fun _ h => h, .inr ⟨by simp, rfl, by simp, rfl⟩⟩
    · rw [acceptStep_free errorCode hgrow]
      exact ⟨fun _ h => h, .inr ⟨by simp, rfl, by simp, rfl⟩⟩
  | prepare pc =>
    obtain ⟨hcount, hkeys⟩ := prepareStep_count clientIncrease s errorCode pc
    simp only [acceptStep]
    refine ⟨hkeys, .inr ⟨by simp, hcount, by simp, ?_⟩⟩
    cases (s.prepareStep clientIncrease errorCode pc).2.1 <;> rfl

theorem disconnectStep_cases {s : EchoServer} {pc : DisconnectPc} (errorCode : ℤ)
    (hf : ∀ id, pc = .finder id → id ∈ s.keys) :
    (s.disconnectStep errorCode pc).1.keys = s.keys ∧
      ((∃ target v, pc = .storeCount target v ∧ s.disconnectStep errorCode pc =
        ({ s with currentClientCount := v - 1 }, some (.tryAccept target .guard), [])) ∨
      ((∀ target v, pc ≠ .storeCount target v) ∧
        (s.disconnectStep errorCode pc).1.currentClientCount = s.currentClientCount ∧
        (∀ id, (s.disconnectStep errorCode pc).2.1 ≠ some (.finder id)) ∧
        disconnectStored (s.disconnectStep errorCode pc).2.1 +
          returned (s.disconnectStep errorCode pc).2.1 = disconnectStored (some pc))) := by
  cases pc with
  | storeCount target v => exact ⟨rfl, .inl ⟨target, v, rfl, rfl⟩⟩
  | finder id =>
    refine ⟨rfl, .inr ⟨by simp, rfl, ?_, ?_⟩⟩
    · simp [disconnectStep]
    · obtain ⟨target, ht⟩ := Option.isSome_iff_exists.mp (finder_isSome.mpr (hf id rfl))
      simp [disconnectStep, ht, disconnectStored, returned]
  | loadCount target => exact ⟨rfl, .inr ⟨by simp, rfl, by simp [disconnectStep], rfl⟩⟩
  | tryAccept target pc =>
    simp only [disconnectStep]
    refine ⟨rfl, .inr ⟨by simp, rfl, by simp, ?_⟩⟩
    cases ((s.heap target).tryAcceptStep errorCode pc).2.1 <;> rfl

theorem count_accepted {Pc : Type} (pc : Option Pc) :
    ((if pc.isNone then [Event.accepted] else []).count .accepted : ℤ) = returned pc ∧
      (if pc.isNone then [Event.accepted] else []).count .disconnected = 0 := by
  cases pc <;> exact ⟨rfl, rfl⟩

theorem count_disconnected {Pc : Type} (pc : Option Pc) :
    ((if pc.isNone then [Event.disconnected] else []).count .disconnected : ℤ) = returned pc ∧
      (if pc.isNone then [Event.disconnected] else []).count .accepted = 0 := by
  cases pc <;> exact ⟨rfl, rfl⟩

theorem accept_spec {errorCode : ℤ} (hF : Found s) (hL : Ledger initial es s)
    (hs : machine.step s (.accept errorCode) = some (s', out)) :
    Found s' ∧ (Ledger initial (es ++ out) s' ↔ Fresh s (.accept errorCode)) := by
  simp only [machine, Option.map_eq_some_iff, Prod.mk.injEq] at hs
  obtain ⟨pc, hpc, rfl, rfl⟩ := hs
  obtain ⟨hkeys, hcase⟩ := acceptStep_cases errorCode fun id h => hF.accept id (h ▸ hpc)
  obtain ⟨hout, hout'⟩ := count_accepted (s.server.acceptStep errorCode pc).2.1
  simp only [Ledger, hpc] at hL
  simp only [Ledger, Fresh, hpc, Option.some.injEq, List.count_append, Int.natCast_add, hout, hout']
  rcases hcase with ⟨v, rfl, hv⟩ | ⟨hne, hcount, hfind, hst⟩
  · refine ⟨⟨fun id h => ?_, fun id h => hkeys id (hF.disconnect id h)⟩, ?_⟩
    · simp [hv] at h
    · simp only [hv, acceptStored, returned, AcceptPc.storeCount.injEq] at hL ⊢
      -- the ledger moves by one, the counter to `v + 1`: they agree when `v` is not stale
      constructor
      · rintro h v rfl
        omega
      · intro h
        have := h v rfl
        omega
  · refine ⟨⟨fun id h => absurd h (hfind id), fun id h => hkeys id (hF.disconnect id h)⟩, ?_⟩
    have hfresh : ∀ v, pc = .storeCount v → v = s.server.currentClientCount :=
      fun v h => absurd h (hne v)
    rw [hcount, iff_true_right hfresh]
    omega

theorem disconnect_spec {errorCode : ℤ} (hF : Found s) (hL : Ledger initial es s)
    (hs : machine.step s (.disconnect errorCode) = some (s', out)) :
    Found s' ∧ (Ledger initial (es ++ out) s' ↔ Fresh s (.disconnect errorCode)) := by
  simp only [machine, Option.map_eq_some_iff, Prod.mk.injEq] at hs
  obtain ⟨pc, hpc, rfl, rfl⟩ := hs
  obtain ⟨hkeys, hcase⟩ := disconnectStep_cases errorCode fun id h => hF.disconnect id (h ▸ hpc)
  obtain ⟨hout, hout'⟩ := count_disconnected (s.server.disconnectStep errorCode pc).2.1
  simp only [Ledger, hpc] at hL
  simp only [Ledger, Fresh, hpc, Option.some.injEq, List.count_append, Int.natCast_add, hout, hout']
  rcases hcase with ⟨target, v, rfl, hv⟩ | ⟨hne, hcount, hfind, hst⟩
  · refine ⟨⟨fun id h => hkeys ▸ hF.accept id h, fun id h => ?_⟩, ?_⟩
    · simp [hv] at h
    · simp only [hv, disconnectStored, returned, DisconnectPc.storeCount.injEq] at hL ⊢
      constructor
      · rintro h _ v ⟨rfl, rfl⟩
        omega
      · intro h
        have := h target v ⟨rfl, rfl⟩
        omega
  · refine ⟨⟨fun id h => hkeys ▸ hF.accept id h, fun id h => absurd h (hfind id)⟩, ?_⟩
    have hfresh : ∀ target v, pc = .storeCount target v → v = s.server.currentClientCount :=
      fun target v h => absurd h (hne target v)
    rw [hcount, iff_true_right hfresh]
    omega

/-- A step keeps the ledger exactly when it does not store over a value it has not seen. -/
theorem step_spec (hF : Found s) (hL : Ledger initial es s)
    (hs : machine.step s a = some (s', out)) :
    Found s' ∧ (Ledger initial (es ++ out) s' ↔ Fresh s a) := by
  cases a with
  | accept errorCode => exact accept_spec hF hL hs
  | disconnect errorCode => exact disconnect_spec hF hL hs
  | callAccept clientID =>
    simp only [machine] at hs
    split_ifs at hs with hg
    obtain ⟨rfl, rfl⟩ := Prod.mk.inj (Option.some.inj hs)
    have hnone := Option.isNone_iff_eq_none.mp hg.1
    refine ⟨⟨fun id h => ?_, hF.disconnect⟩, ?_⟩
    · obtain rfl : clientID = id := by simpa using h
      exact hg.2
    · simpa [Ledger, Fresh, hnone, acceptStored] using hL
  | callDisconnect clientID =>
    simp only [machine] at hs
    split_ifs at hs with hg
    obtain ⟨rfl, rfl⟩ := Prod.mk.inj (Option.some.inj hs)
    have hnone := Option.isNone_iff_eq_none.mp hg.1
    refine ⟨⟨hF.accept, fun id h => ?_⟩, ?_⟩
    · obtain rfl : clientID = id := by simpa using h
      exact hg.2
    · simpa [Ledger, Fresh, hnone, disconnectStored] using hL

theorem Ledger.balanced (h : Ledger initial es s) : Balanced initial es s := by
  intro ha hd
  simpa [Ledger, ha, hd, acceptStored, disconnectStored] using h

theorem start_found (server : EchoServer) : Found (start server) :=
  ⟨fun _ h => absurd h (by simp [start]), fun _ h => absurd h (by simp [start])⟩

theorem start_ledger (server : EchoServer) :
    Ledger server.currentClientCount [] (start server) := by
  simp [Ledger, start, acceptStored, disconnectStored]

theorem fresh_of_stuck (h : machine.step s a = none) : Fresh s a := by
  cases a with
  | accept errorCode =>
    intro v hv
    simp [machine, hv] at h
  | disconnect errorCode =>
    intro target v hv
    simp [machine, hv] at h
  | callAccept | callDisconnect => trivial

/-- Every handler counts at every moment exactly when no thread stores over a value it has not
seen; the counter is then balanced whenever both threads are out of their handlers. -/
theorem ledger_along_iff (server : EchoServer) (as : List Act) :
    (machine.Along (start server) as (Ledger server.currentClientCount) ↔
      machine.Steps (start server) as Fresh) ∧
    (machine.Steps (start server) as Fresh →
      machine.Along (start server) as (Balanced server.currentClientCount)) := by
  have hiff : machine.Along (start server) as (Ledger server.currentClientCount) ↔
      machine.Steps (start server) as Fresh :=
    Machine.along_iff_steps (J := fun _ => Found)
      ⟨start_found server, start_ledger server⟩
      (fun _ _ _ _ _ _ _ _ hF hL hs => step_spec hF hL hs) fun _ _ => fresh_of_stuck
  exact ⟨hiff, fun h bs es s hp hr => (hiff.mpr h bs es s hp hr).balanced⟩

/-- Three slots; client 0 disconnects between the load and the store of client 1's `Accept`,
whose store then hides the disconnect. -/
theorem update_lost :
    ∃ s es, machine.run (start ((EchoServer.new fun _ => default).prepareSocket 3 fun _ => 0).1)
        (.callAccept 0 :: List.replicate 9 (.accept 0) ++
          .callAccept 1 :: List.replicate 6 (.accept 0) ++
          .callDisconnect 0 :: List.replicate 4 (.disconnect 0) ++
          List.replicate 3 (.accept 0)) = some (s, es) ∧
      s.server.currentClientCount = 2 ∧ ¬ Balanced 0 es s := by
  refine ⟨_, _, rfl, rfl, fun h => ?_⟩
  exact absurd (h rfl rfl) (by decide)

end Counter

end EchoIocp
