import EchoIocp.Lib.Custody
import EchoIocp.Handlers
import EchoIocp.IOCompletionPort
import Mathlib.Algebra.BigOperators.Group.List.Basic

namespace EchoIocp

open LockFreeCircleQueue ClientDataSet EchoServer

structure Completed where
  op : Posted
  result : Bool
  bytesTransferred : ℕ
  deriving DecidableEq

namespace EchoServer

variable (s : EchoServer)

/-- The context an `OVERLAPPED*` of the kernel points to. -/
def context (op : Posted) : Option CustomOverlapped :=
  match op.overlapped with
  | .accept => some (s.heap op.owner).mAcceptContext
  | .receive => some (s.heap op.owner).mReceiveContext
  | .send context => context

/-- The bytes a `wsabuf.buf` of a client's context points to. -/
def designated (owner : ℕ) : BufferPtr → List UInt8
  | .null => []
  | .acceptBuf => (s.heap owner).mAcceptBuf
  | .receiveBuf => (s.heap owner).mReceiveBuf
  | .message bytes => bytes

/-- What `Process` finds through the `OVERLAPPED*` it dequeued. -/
def completion (c : Completed) : Completion :=
  let targetOverlapped := s.context c.op
  { result := c.result
    bytesTransferred := c.bytesTransferred
    overlapped := targetOverlapped
    buffer := targetOverlapped.elim [] fun o => s.designated c.op.owner o.wsabuf.buf }

/-- The kernel writes received bytes to the start of `mReceiveBuf`. -/
def deliver (owner : ℕ) (bytes : List UInt8) : EchoServer :=
  s.assign owner { s.heap owner with
    mReceiveBuf := bytes ++ (s.heap owner).mReceiveBuf.drop bytes.length }

end EchoServer

/-- The bytes `FeedBack_Receive` appends. -/
def Packet.bytes (p : Packet) : List UInt8 := (p.buffer.getD []).take p.dataSize

/-- `inHand` is dequeued and not read yet; a thread is in its handler or at its loop. -/
structure EchoSystem where
  server : EchoServer
  port : IOCompletionPort
  outstanding : List Posted
  completed : List Completed
  inHand : Option Completed
  acceptThread : Option AcceptPc
  sendThread : Option SendPc
  receiveThread : Option ReceivePc
  disconnectThread : Option DisconnectPc

namespace EchoSystem

/-- `taken` tells whether the kernel took the operation a step posts, if it posts one. -/
inductive Act
  | complete (op : Posted) (result : Bool) (bytes : List UInt8)
  | dequeue (c : Completed)
  | process
  | accept (errorCode : ℤ) (taken : Bool)
  | send (taken : Bool)
  | receive (taken : Bool)
  | disconnect (errorCode : ℤ) (taken : Bool)
  | request (clientID : ℤ) (dataSize : ℕ) (messageBuff : List UInt8) (taken : Bool)

inductive Event
  | delivered (owner : ℕ) (bytes : List UInt8)
  | handed (target : ℕ) (bytes : List UInt8)
  | pushed (p : IOCompletionPort.Pushed)

/-- The packet a worker calls its callback with. -/
def called : Option (WorkerEvent Packet) → Option Packet
  | some (.fronted d) => some d
  | _ => none

def handing : ReceivePc → List Event
  | .gather target packet => [.handed target packet.bytes]
  | _ => []

/-- One step of the kernel, of `Process`, of a worker or of the application. -/
def machine : Machine EchoSystem Act Event where
  step s
    -- the kernel may complete what was posted in any order and with any result
    | .complete op result bytes =>
      if op ∈ s.outstanding ∧ (op.overlapped = .receive → bytes.length ≤ maxSockRecvBuf) then
        some ({ s with
          server := if op.overlapped = .receive then s.server.deliver op.owner bytes else s.server
          outstanding := s.outstanding.erase op
          completed := ⟨op, result, bytes.length⟩ :: s.completed },
          if op.overlapped = .receive ∧ result = true then [.delivered op.owner bytes] else [])
      else none
    -- `Process` asks for the next completion when the push of the last one has returned
    | .dequeue c =>
      if c ∈ s.completed ∧ s.inHand = none ∧ s.port.process.isNone then
        some ({ s with completed := s.completed.erase c, inHand := some c }, [])
      else none
    | .process =>
      match s.inHand with
      | some c =>
        some ({ s with port := s.port.begin (s.server.completion c), inHand := none }, [])
      | none => s.port.processStep.map fun r => ({ s with port := r.1 }, (r.2.map .pushed).toList)
    | .accept errorCode taken =>
      match s.acceptThread with
      | some pc =>
        let r := s.server.acceptStep errorCode pc
        some ({ s with
          server := r.1
          acceptThread := r.2.1
          outstanding := s.outstanding ++ if taken then r.2.2 else [] }, [])
      | none =>
        let r := s.port.workerStep .acceptQueue
        some ({ s with
          port := r.1
          acceptThread := (called r.2).map fun packet => .finder packet.clientID }, [])
    | .send taken =>
      match s.sendThread with
      | some pc =>
        let r := s.server.sendStep 0 pc
        some ({ s with
          server := r.1
          sendThread := r.2.1
          outstanding := s.outstanding ++ if taken then r.2.2 else [] }, [])
      | none =>
        let r := s.port.workerStep .sendQueue
        some ({ s with port := r.1, sendThread := (called r.2).map .finder }, [])
    | .receive taken =>
      match s.receiveThread with
      | some pc =>
        let r := s.server.receiveStep 0 pc
        some ({ s with
          server := r.1
          receiveThread := r.2.1
          outstanding := s.outstanding ++ if taken then r.2.2 else [] }, handing pc)
      | none =>
        let r := s.port.workerStep .receiveQueue
        some ({ s with port := r.1, receiveThread := (called r.2).map .finder }, [])
    | .disconnect errorCode taken =>
      match s.disconnectThread with
      | some pc =>
        let r := s.server.disconnectStep errorCode pc
        some ({ s with
          server := r.1
          disconnectThread := r.2.1
          outstanding := s.outstanding ++ if taken then r.2.2 else [] }, [])
      | none =>
        let r := s.port.workerStep .disconnectQueue
        some ({ s with
          port := r.1
          disconnectThread := (called r.2).map fun packet => .finder packet.clientID }, [])
    | .request clientID dataSize messageBuff taken =>
      (s.server.clientFinder clientID).map fun target =>
        let r := (s.server.heap target).sendRequest dataSize (.message messageBuff)
        ({ s with
          server := s.server.assign target r.1
          outstanding := s.outstanding ++ if taken then posted target r.2.1 else [] }, [])

inductive Effect (s : EchoSystem) : Act → EchoSystem → List Event → Prop
  | complete (op : Posted) (result : Bool) (bytes : List UInt8) (hop : op ∈ s.outstanding)
      (hlen : op.overlapped = .receive → bytes.length ≤ maxSockRecvBuf) :
      Effect s (.complete op result bytes) { s with
        server := if op.overlapped = .receive then s.server.deliver op.owner bytes else s.server
        outstanding := s.outstanding.erase op
        completed := ⟨op, result, bytes.length⟩ :: s.completed }
        (if op.overlapped = .receive ∧ result = true then [.delivered op.owner bytes] else [])
  | dequeue (c : Completed) (hc : c ∈ s.completed) (hin : s.inHand = none)
      (hidle : s.port.process = none) : Effect s (.dequeue c)
        { s with completed := s.completed.erase c, inHand := some c } []
  | begin (c : Completed) (hin : s.inHand = some c) : Effect s .process
      { s with port := s.port.begin (s.server.completion c), inHand := none } []
  | push (port' : IOCompletionPort) (e : Option IOCompletionPort.Pushed) (hin : s.inHand = none)
      (hs : s.port.processStep = some (port', e)) :
      Effect s .process { s with port := port' } (e.map .pushed).toList
  | acceptLoop (errorCode : ℤ) (taken : Bool) (hpc : s.acceptThread = none) :
      Effect s (.accept errorCode taken) { s with
        port := (s.port.workerStep .acceptQueue).1
        acceptThread := (called (s.port.workerStep .acceptQueue).2).map
          fun packet => .finder packet.clientID } []
  | accept (errorCode : ℤ) (taken : Bool) (pc : AcceptPc) (hpc : s.acceptThread = some pc) :
      Effect s (.accept errorCode taken) { s with
        server := (s.server.acceptStep errorCode pc).1
        acceptThread := (s.server.acceptStep errorCode pc).2.1
        outstanding := s.outstanding ++
          if taken then (s.server.acceptStep errorCode pc).2.2 else [] } []
  | sendLoop (taken : Bool) (hpc : s.sendThread = none) : Effect s (.send taken) { s with
      port := (s.port.workerStep .sendQueue).1
      sendThread := (called (s.port.workerStep .sendQueue).2).map .finder } []
  | send (taken : Bool) (pc : SendPc) (hpc : s.sendThread = some pc) : Effect s (.send taken)
      { s with
        server := (s.server.sendStep 0 pc).1
        sendThread := (s.server.sendStep 0 pc).2.1
        outstanding := s.outstanding ++ if taken then (s.server.sendStep 0 pc).2.2 else [] } []
  | receiveLoop (taken : Bool) (hpc : s.receiveThread = none) : Effect s (.receive taken) { s with
      port := (s.port.workerStep .receiveQueue).1
      receiveThread := (called (s.port.workerStep .receiveQueue).2).map .finder } []
  | receive (taken : Bool) (pc : ReceivePc) (hpc : s.receiveThread = some pc) :
      Effect s (.receive taken) { s with
        server := (s.server.receiveStep 0 pc).1
        receiveThread := (s.server.receiveStep 0 pc).2.1
        outstanding := s.outstanding ++
          if taken then (s.server.receiveStep 0 pc).2.2 else [] } (handing pc)
  | disconnectLoop (errorCode : ℤ) (taken : Bool) (hpc : s.disconnectThread = none) :
      Effect s (.disconnect errorCode taken) { s with
        port := (s.port.workerStep .disconnectQueue).1
        disconnectThread := (called (s.port.workerStep .disconnectQueue).2).map
          fun packet => .finder packet.clientID } []
  | disconnect (errorCode : ℤ) (taken : Bool) (pc : DisconnectPc)
      (hpc : s.disconnectThread = some pc) : Effect s (.disconnect errorCode taken) { s with
        server := (s.server.disconnectStep errorCode pc).1
        disconnectThread := (s.server.disconnectStep errorCode pc).2.1
        outstanding := s.outstanding ++
          if taken then (s.server.disconnectStep errorCode pc).2.2 else [] } []
  | request (clientID : ℤ) (dataSize : ℕ) (messageBuff : List UInt8) (taken : Bool) (target : ℕ)
      (hf : s.server.clientFinder clientID = some target) :
      Effect s (.request clientID dataSize messageBuff taken) { s with
        server := s.server.assign target
          ((s.server.heap target).sendRequest dataSize (.message messageBuff)).1
        outstanding := s.outstanding ++ if taken then
          posted target ((s.server.heap target).sendRequest dataSize (.message messageBuff)).2.1
            else [] } []

/-- A step that is taken does one of these. -/
theorem effect_of_step {s s' : EchoSystem} {a : Act} {out : List Event}
    (hs : machine.step s a = some (s', out)) : Effect s a s' out := by
  cases a with
  | complete op result bytes =>
    simp only [machine] at hs
    split at hs
    case isFalse => exact absurd hs (by simp)
    rename_i hg
    obtain ⟨rfl, rfl⟩ := Prod.mk.inj (Option.some.inj hs)
    exact .complete op result bytes hg.1 hg.2
  | dequeue c =>
    simp only [machine] at hs
    split_ifs at hs with hg
    obtain ⟨rfl, rfl⟩ := Prod.mk.inj (Option.some.inj hs)
    exact .dequeue c hg.1 hg.2.1 (Option.isNone_iff_eq_none.mp hg.2.2)
  | process =>
    cases hin : s.inHand with
    | some c =>
      simp only [machine, hin, Option.some.injEq, Prod.mk.injEq] at hs
      obtain ⟨rfl, rfl⟩ := hs
      exact .begin c hin
    | none =>
      simp only [machine, hin, Option.map_eq_some_iff, Prod.mk.injEq] at hs
      obtain ⟨⟨port', e⟩, hstep, rfl, rfl⟩ := hs
      rw [← hin]
      exact .push port' e hin hstep
  | accept errorCode taken =>
    cases hpc : s.acceptThread <;> simp only [machine, hpc, Option.some.injEq, Prod.mk.injEq] at hs
    · obtain ⟨rfl, rfl⟩ := hs
      exact .acceptLoop errorCode taken hpc
    · obtain ⟨rfl, rfl⟩ := hs
      exact .accept errorCode taken _ hpc
  | send taken =>
    cases hpc : s.sendThread <;> simp only [machine, hpc, Option.some.injEq, Prod.mk.injEq] at hs
    · obtain ⟨rfl, rfl⟩ := hs
      exact .sendLoop taken hpc
    · obtain ⟨rfl, rfl⟩ := hs
      exact .send taken _ hpc
  | receive taken =>
    cases hpc : s.receiveThread <;> simp only [machine, hpc, Option.some.injEq, Prod.mk.injEq] at hs
    · obtain ⟨rfl, rfl⟩ := hs
      exact .receiveLoop taken hpc
    · obtain ⟨rfl, rfl⟩ := hs
      exact .receive taken _ hpc
  | disconnect errorCode taken =>
    cases hpc : s.disconnectThread <;>
      simp only [machine, hpc, Option.some.injEq, Prod.mk.injEq] at hs
    · obtain ⟨rfl, rfl⟩ := hs
      exact .disconnectLoop errorCode taken hpc
    · obtain ⟨rfl, rfl⟩ := hs
      exact .disconnect errorCode taken _ hpc
  | request clientID dataSize messageBuff taken =>
    simp only [machine, Option.map_eq_some_iff, Prod.mk.injEq] at hs
    obtain ⟨target, hf, rfl, rfl⟩ := hs
    exact .request clientID dataSize messageBuff taken target hf

/-- After `PrepareSocket(n)`, of whose `AcceptEx` calls the kernel took those `taken` tells. -/
def start (memory : ℕ → ClientDataSet) (buffers : QueueName → ℕ → Packet) (n : ℕ)
    (errorCode : ℤ → ℤ) (taken : ℕ → Bool) : EchoSystem where
  server := ((EchoServer.new memory).prepareSocket n errorCode).1
  port := .new buffers true
  outstanding := ((EchoServer.new memory).prepareSocket n errorCode).2.filter fun op =>
    taken op.owner
  completed := []
  inHand := none
  acceptThread := none
  sendThread := none
  receiveThread := none
  disconnectThread := none

/-- What is on its way for a client: an accept before it is connected, then a receive with the
bytes already delivered, or the end of the connection. -/
abbrev ClientToken := Token ℤ UInt8

def total {α : Type} (f : α → Multiset ClientToken) (l : List α) : Multiset ClientToken :=
  (l.map f).sum

end EchoSystem

open EchoSystem

def Posted.tokens (op : Posted) : Multiset ClientToken :=
  match op.overlapped with
  | .accept => {.waiting op.owner}
  | .receive => {.serving op.owner []}
  | .send _ => 0

/-- A receive that succeeded has its bytes in `mReceiveBuf`. -/
def Completed.tokens (s : EchoServer) (c : Completed) : Multiset ClientToken :=
  match c.op.overlapped with
  | .accept => {.waiting c.op.owner}
  | .receive => {.serving c.op.owner
      (if c.result then (s.heap c.op.owner).mReceiveBuf.take c.bytesTransferred else [])}
  | .send _ => 0

def Packet.tokens (p : Packet) : QueueName → Multiset ClientToken
  | .acceptQueue => {.waiting p.clientID}
  | .sendQueue => 0
  | .receiveQueue => {.serving p.clientID p.bytes}
  | .disconnectQueue => {.serving p.clientID []}

def IOCompletionPort.tokens (port : IOCompletionPort) : Multiset ClientToken :=
  total (Packet.tokens · .acceptQueue) (port.transit .acceptQueue) +
    total (Packet.tokens · .receiveQueue) (port.transit .receiveQueue) +
    total (Packet.tokens · .disconnectQueue) (port.transit .disconnectQueue)

namespace EchoServer

/-- The clients in the map as members, the connected ones as joined. -/
def custody (s : EchoServer) (tokens : Multiset ClientToken) : Custody ℤ UInt8 where
  tokens
  members := {id | ∃ i < s.allocated, (i : ℤ) = id}
  joined := {id | ∃ i < s.allocated, s.connected i = true ∧ (i : ℤ) = id}

def untried (s : EchoServer) (ids : List ℤ) : Multiset ClientToken :=
  total (fun id => if s.connected id.toNat then 0 else {.waiting id}) ids

def prepareTokens (s : EchoServer) : PreparePc → Multiset ClientToken
  | .create _ _ => s.untried s.keys
  | .next _ rest => s.untried rest
  | .tryAccept _ target .guard rest => s.untried (target :: rest)
  | .tryAccept _ target _ rest => {.waiting target} + s.untried rest
  | .loadId | .storeId _ | .loadMax | .storeMax _ => 0

def acceptTokens (s : EchoServer) : Option AcceptPc → Multiset ClientToken
  | some (.finder id) => {.waiting id}
  | some (.feedBack target) => {.waiting target}
  | some (.ready target _) => {.serving target []}
  | some (.prepare pc) => s.prepareTokens pc
  | none | some .loadCount | some (.storeCount _) | some .loadMax | some (.isEmpty _) => 0

end EchoServer

def receiveTokens : Option ReceivePc → Multiset ClientToken
  | some (.finder packet) => {.serving packet.clientID packet.bytes}
  | some (.gather target packet) => {.serving target packet.bytes}
  | some (.ready target _) => {.serving target []}
  | none => 0

def disconnectTokens : Option DisconnectPc → Multiset ClientToken
  | some (.finder id) => {.serving id []}
  | _ => 0

namespace EchoSystem

def tokens (s : EchoSystem) : Multiset ClientToken :=
  total Posted.tokens s.outstanding + total (Completed.tokens s.server) s.completed +
    total (Completed.tokens s.server) s.inHand.toList + s.port.tokens +
    s.server.acceptTokens s.acceptThread + receiveTokens s.receiveThread +
    disconnectTokens s.disconnectThread

def custody (s : EchoSystem) : Custody ℤ UInt8 := s.server.custody s.tokens

section total

variable {α : Type} {f g : α → Multiset ClientToken} {a : α} {l l' : List α}

@[simp] theorem total_nil : total f [] = 0 := rfl

@[simp] theorem total_cons : total f (a :: l) = f a + total f l := by simp [total]

@[simp] theorem total_append : total f (l ++ l') = total f l + total f l' := by simp [total]

theorem total_erase [DecidableEq α] (h : a ∈ l) : total f l = f a + total f (l.erase a) := by
  have hp := (List.perm_cons_erase h).map f
  rw [total, hp.sum_eq, List.map_cons, List.sum_cons]
  rfl

theorem mem_total {t : ClientToken} : t ∈ total f l ↔ ∃ a ∈ l, t ∈ f a := by
  induction l with
  | nil => simp
  | cons a l ih => simp [ih]

theorem total_congr (h : ∀ a ∈ l, f a = g a) : total f l = total g l := by
  rw [total, total, List.map_congr_left h]

end total

theorem mem_tokens {s : EchoSystem} {t : ClientToken} : t ∈ s.tokens ↔
    ((∃ op ∈ s.outstanding, t ∈ op.tokens) ∨
      ∃ c ∈ s.completed ++ s.inHand.toList, t ∈ c.tokens s.server) ∨
    ((∃ p ∈ s.port.transit .acceptQueue, t ∈ p.tokens .acceptQueue) ∨
      (∃ p ∈ s.port.transit .receiveQueue, t ∈ p.tokens .receiveQueue) ∨
      ∃ p ∈ s.port.transit .disconnectQueue, t ∈ p.tokens .disconnectQueue) ∨
    t ∈ s.server.acceptTokens s.acceptThread ∨ t ∈ receiveTokens s.receiveThread ∨
      t ∈ disconnectTokens s.disconnectThread := by
  simp only [tokens, IOCompletionPort.tokens, ← mem_total, total_append, Multiset.mem_add,
    or_assoc]

end EchoSystem

end EchoIocp
