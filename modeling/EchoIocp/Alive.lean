import EchoIocp.Invariant

namespace EchoIocp

open LockFreeCircleQueue ClientDataSet EchoServer

namespace EchoSystem

/-- Operations on a context of client `id` that `Process` has not dispatched. -/
def operations (s : EchoSystem) (overlapped : OverlappedPtr) (id : ℤ) : ℕ :=
  s.inFlight.countP fun op => op.overlapped = overlapped ∧ (op.owner : ℤ) = id

/-- Packets of client `id` that no worker has called its callback with. -/
def queued (s : EchoSystem) (name : QueueName) (id : ℤ) : ℕ :=
  (s.port.transit name).countP fun packet => packet.clientID = id

def beforeAccept (id : ℤ) : Option AcceptPc → ℕ
  | some (.finder clientID) => if clientID = id then 1 else 0
  | some (.feedBack target) => if (target : ℤ) = id then 1 else 0
  | _ => 0

def beforeReceive (id : ℤ) : Option ReceivePc → ℕ
  | some (.finder packet) => if packet.clientID = id then 1 else 0
  | some (.gather target _) => if (target : ℤ) = id then 1 else 0
  | _ => 0

def beforeDisconnect (id : ℤ) : Option DisconnectPc → ℕ
  | some (.finder clientID) => if clientID = id then 1 else 0
  | _ => 0

/-- The accepts, receives and packets of client `id` on their way. -/
def alive (s : EchoSystem) (id : ℤ) : ℕ :=
  s.operations .accept id + (s.queued .acceptQueue id + beforeAccept id s.acceptThread) +
    s.operations .receive id + (s.queued .receiveQueue id + beforeReceive id s.receiveThread) +
    (s.queued .disconnectQueue id + beforeDisconnect id s.disconnectThread)

/-- The operations whose contexts the threads zero and fill next. -/
def filling (s : EchoSystem) : List Posted :=
  (match s.acceptThread with
    | some (.ready target .fill) => [⟨target, .receive⟩]
    | some (.prepare (.tryAccept _ target .fill _)) => [⟨target, .accept⟩]
    | _ => []) ++
  (match s.receiveThread with
    | some (.ready target .fill) => [⟨target, .receive⟩]
    | _ => []) ++
  (match s.disconnectThread with
    | some (.tryAccept target .fill) => [⟨target, .accept⟩]
    | _ => [])

def owned (id : ℤ) (tokens : Multiset ClientToken) : ℕ := tokens.countP fun t => t.owner = id

variable (s : EchoSystem) (id i : ℤ) (u v : Multiset ClientToken) (bytes : List UInt8)

@[simp] theorem owned_zero : owned id 0 = 0 := rfl

@[simp] theorem owned_add : owned id (u + v) = owned id u + owned id v := Multiset.countP_add _ _ _

@[simp] theorem owned_waiting : owned id {.waiting i} = if i = id then 1 else 0 := by
  rw [owned, ← Multiset.cons_zero, Multiset.countP_cons]
  exact Nat.zero_add _

@[simp] theorem owned_serving : owned id {.serving i bytes} = if i = id then 1 else 0 := by
  rw [owned, ← Multiset.cons_zero, Multiset.countP_cons]
  exact Nat.zero_add _

theorem owned_total {α : Type} (f : α → Multiset ClientToken) (p : α → Bool) (l : List α)
    (h : ∀ a ∈ l, (if p a then 1 else 0) ≤ owned id (f a)) : l.countP p ≤ owned id (total f l) := by
  induction l with
  | nil => simp
  | cons a l ih =>
    rw [total_cons, owned_add, List.countP_cons, Nat.add_comm]
    exact Nat.add_le_add (h a (by simp)) (ih fun b hb => h b (List.mem_cons_of_mem _ hb))

theorem countP_operations (l : List Posted) :
    (l.countP fun op => op.overlapped = .accept ∧ (op.owner : ℤ) = id) +
      (l.countP fun op => op.overlapped = .receive ∧ (op.owner : ℤ) = id) =
    l.countP fun op => (op.overlapped = .accept ∨ op.overlapped = .receive) ∧
      (op.owner : ℤ) = id := by
  -- an operation cannot be both an accept and a receive
  induction l with
  | nil => rfl
  | cons op l ih =>
    obtain ⟨owner, overlapped⟩ := op
    simp only [List.countP_cons] at ih ⊢
    rw [← ih]
    cases overlapped <;> simp <;> omega

theorem operations_le : s.operations .accept id + s.operations .receive id ≤
    owned id (total Posted.tokens s.outstanding) +
      (owned id (total (Completed.tokens s.server) s.completed) +
        owned id (total (Completed.tokens s.server) s.inHand.toList)) := by
  have hposted := owned_total id Posted.tokens
    (fun op => (op.overlapped = .accept ∨ op.overlapped = .receive) ∧ (op.owner : ℤ) = id)
    s.outstanding fun op _ => by
      obtain ⟨owner, overlapped⟩ := op
      cases overlapped <;> simp [Posted.tokens]
  have hcompleted (l : List Completed) := owned_total id (Completed.tokens s.server)
    (fun c => (c.op.overlapped = .accept ∨ c.op.overlapped = .receive) ∧ (c.op.owner : ℤ) = id)
    l fun c _ => by
      obtain ⟨⟨owner, overlapped⟩, result, bytesTransferred⟩ := c
      cases overlapped <;> simp [Completed.tokens]
  rw [operations, operations, countP_operations, inFlight, List.map_append, List.countP_append,
    List.countP_append, List.countP_map, List.countP_map]
  exact Nat.add_le_add hposted (Nat.add_le_add (hcompleted _) (hcompleted _))

theorem queued_le (name : QueueName) (hname : name ≠ .sendQueue) :
    s.queued name id ≤ owned id (total (Packet.tokens · name) (s.port.transit name)) := by
  apply owned_total
  intro packet _
  cases name with
  | sendQueue => exact absurd rfl hname
  | acceptQueue | receiveQueue | disconnectQueue => simp [Packet.tokens]

theorem alive_le : s.alive id ≤ owned id s.tokens := by
  have hops := operations_le s id
  have haccept := queued_le s id .acceptQueue (by simp)
  have hreceive := queued_le s id .receiveQueue (by simp)
  have hdisconnect := queued_le s id .disconnectQueue (by simp)
  have ha : beforeAccept id s.acceptThread ≤ owned id (s.server.acceptTokens s.acceptThread) := by
    rcases s.acceptThread with _ | pc
    · exact Nat.zero_le _
    · cases pc <;> simp [beforeAccept, acceptTokens]
  have hr : beforeReceive id s.receiveThread ≤ owned id (receiveTokens s.receiveThread) := by
    rcases s.receiveThread with _ | pc
    · exact Nat.zero_le _
    · cases pc <;> simp [beforeReceive, receiveTokens]
  have hd : beforeDisconnect id s.disconnectThread ≤
      owned id (disconnectTokens s.disconnectThread) := by
    rcases s.disconnectThread with _ | pc
    · exact Nat.zero_le _
    · cases pc <;> simp [beforeDisconnect, disconnectTokens]
  simp only [alive, tokens, IOCompletionPort.tokens, owned_add]
  omega

variable {s}

theorem Inv.alive_le_one (h : s.Inv) : s.alive id ≤ 1 := (alive_le s id).trans (h.valid.count_le id)

theorem mem_kernel {op : Posted} (hop : op ∈ s.inFlight)
    (hk : ∀ context, op.overlapped ≠ .send context) :
    ∃ t ∈ total Posted.tokens s.outstanding + total (Completed.tokens s.server) s.completed +
      total (Completed.tokens s.server) s.inHand.toList, t.owner = (op.owner : ℤ) := by
  have hposted : ∃ t ∈ op.tokens, t.owner = (op.owner : ℤ) := by
    obtain ⟨owner, overlapped⟩ := op
    cases overlapped with
    | accept => exact ⟨_, Multiset.mem_singleton_self _, rfl⟩
    | receive => exact ⟨_, Multiset.mem_singleton_self _, rfl⟩
    | send context => exact absurd rfl (hk context)
  have hcompleted (c : Completed) (hc : c.op = op) :
      ∃ t ∈ c.tokens s.server, t.owner = (op.owner : ℤ) := by
    subst hc
    obtain ⟨⟨owner, overlapped⟩, result, bytesTransferred⟩ := c
    cases overlapped with
    | accept => exact ⟨_, Multiset.mem_singleton_self _, rfl⟩
    | receive => exact ⟨_, Multiset.mem_singleton_self _, rfl⟩
    | send context => exact absurd rfl (hk context)
  simp only [Multiset.mem_add, mem_total]
  rcases List.mem_append.mp hop with hop | hop
  · obtain ⟨t, ht, ho⟩ := hposted
    exact ⟨t, .inl (.inl ⟨op, hop, ht⟩), ho⟩
  · obtain ⟨c, hc, hop⟩ := List.mem_map.mp hop
    obtain ⟨t, ht, ho⟩ := hcompleted c hop
    rcases List.mem_append.mp hc with hc | hc
    · exact ⟨t, .inl (.inr ⟨c, hc, ht⟩), ho⟩
    · exact ⟨t, .inr ⟨c, hc, ht⟩, ho⟩

theorem Inv.not_inFlight (h : s.Inv) {t : ClientToken} {op : Posted}
    (ht : t ∈ s.server.acceptTokens s.acceptThread + receiveTokens s.receiveThread)
    (ho : t.owner = (op.owner : ℤ)) (hk : ∀ context, op.overlapped ≠ .send context) :
    op ∉ s.inFlight := by
  intro hop
  obtain ⟨t', ht', ho'⟩ := mem_kernel hop hk
  have htokens : s.tokens = (total Posted.tokens s.outstanding +
      total (Completed.tokens s.server) s.completed +
      total (Completed.tokens s.server) s.inHand.toList) +
      (s.server.acceptTokens s.acceptThread + receiveTokens s.receiveThread +
        (s.port.tokens + disconnectTokens s.disconnectThread)) := by
    unfold tokens
    abel
  exact h.valid.apart htokens ht' (Multiset.mem_add.mpr (.inl ht)) (ho'.trans ho.symm)

theorem Inv.filling_apart (h : s.Inv) : ∀ op ∈ s.filling, op ∉ s.inFlight := by
  intro op hop
  simp only [filling, List.mem_append] at hop
  rcases hop with (hop | hop) | hop
  · split at hop
    · rename_i target ha
      obtain rfl := List.mem_singleton.mp hop
      apply h.not_inFlight (t := .serving (target : ℤ) [])
      · simp [ha, acceptTokens]
      · rfl
      · simp
    · rename_i target rest ha
      obtain rfl := List.mem_singleton.mp hop
      apply h.not_inFlight (t := .waiting (target : ℤ))
      · simp [ha, acceptTokens, prepareTokens]
      · rfl
      · simp
    · exact absurd hop List.not_mem_nil
  · split at hop
    · rename_i target hr
      obtain rfl := List.mem_singleton.mp hop
      apply h.not_inFlight (t := .serving (target : ℤ) [])
      · simp [hr, receiveTokens]
      · rfl
      · simp
    · exact absurd hop List.not_mem_nil
  · -- `Disconnect` is only called for connected clients, so it never fills a context
    split at hop
    · rename_i target hd
      have hfalse := h.disconnecting
      rw [hd] at hfalse
      exact hfalse.elim
    · exact absurd hop List.not_mem_nil

/-- In every interleaving at most one operation or packet of a client is alive; no context is
filled while it is in flight, and each is found as it was filled. -/
theorem alive_along (memory : ℕ → ClientDataSet) (buffers : QueueName → ℕ → Packet) (n : ℕ)
    (errorCode : ℤ → ℤ) (taken : ℕ → Bool) (as : List Act) (ha : ∀ a ∈ as, SendsTransfer a) :
    machine.Along (start memory buffers n errorCode taken) as fun _ s =>
      (∀ id, s.alive id ≤ 1) ∧ (∀ op ∈ s.filling, op ∉ s.inFlight) ∧
        ∀ op ∈ s.inFlight, s.server.Armed op := by
  intro bs es s hp hr
  have h := inv_along ha bs es s hp hr
  exact ⟨h.alive_le_one, h.filling_apart, h.armed⟩

/-- The accept of the only slot, from its completion to the `WSARecv` of the client. -/
def oneAccept : List Act :=
  .complete ⟨0, .accept⟩ true [] :: .dequeue ⟨⟨0, .accept⟩, true, 0⟩ ::
    (List.replicate 5 .process ++ List.replicate 14 (.accept 0 true))

theorem alive_along_oneAccept :
    (machine.run (start (fun _ => default) (fun _ _ => default) 1 (fun _ => 0) fun _ => true)
      oneAccept).map (fun r => r.1.outstanding) = some [⟨0, .receive⟩] ∧
    machine.Along (start (fun _ => default) (fun _ _ => default) 1 (fun _ => 0) fun _ => true)
      oneAccept fun _ s => (∀ id, s.alive id ≤ 1) ∧ (∀ op ∈ s.filling, op ∉ s.inFlight) ∧
        ∀ op ∈ s.inFlight, s.server.Armed op := by
  refine ⟨by decide +kernel, alive_along _ _ _ _ _ _ ?_⟩
  intro a ha
  simp only [oneAccept, List.mem_cons, List.mem_append, List.mem_replicate] at ha
  rcases ha with rfl | rfl | ⟨-, rfl⟩ | ⟨-, rfl⟩ <;> trivial

end EchoSystem

end EchoIocp
