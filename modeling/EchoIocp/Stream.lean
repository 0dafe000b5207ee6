import EchoIocp.Alive

namespace EchoIocp

open LockFreeCircleQueue ClientDataSet EchoServer

namespace EchoServer

variable {s : EchoServer} {a : Option AcceptPc}

theorem SlotsOk.cases (h : s.SlotsOk a) :
    s.accumulatedClientId = s.allocated ∨ ∃ currentId, s.Growing currentId := by
  rcases a with _ | pc
  · exact .inl h.nextId
  cases pc with
  | finder | feedBack | ready | loadCount | storeCount | loadMax => exact .inl h.nextId
  | isEmpty currentMax => exact .inl h.1.nextId
  | prepare pc =>
    cases pc with
    | loadId => exact .inl h.1.nextId
    | create currentId limit =>
      rcases h.2.2 with h | h
      · exact .inl h.1.nextId
      · exact .inr ⟨currentId, h⟩
    | next currentId rest | tryAccept currentId target pc rest => exact .inr ⟨currentId, h.1⟩
    | storeId currentId => exact .inr ⟨currentId, h⟩
    | loadMax | storeMax => exact .inl h.1

theorem SlotsOk.card_le {k : ℕ} (h : s.SlotsOk a) (hk : 1 ≤ k)
    (hid : s.accumulatedClientId ≤ k) (b : Bool) :
    ((Finset.range s.allocated).filter fun i => s.connected i = b).card ≤ k := by
  -- of the slots, the one being added included, at most `k` are connected and at most `k` not
  rcases SlotsOk.cases h with he | ⟨currentId, hg⟩
  · apply (Finset.card_filter_le _ _).trans
    rw [Finset.card_range]
    omega
  · have hnext := hg.nextId
    cases b with
    | true =>
      -- every slot but the one being added has been connected
      have hsub : ((Finset.range s.allocated).filter fun i => s.connected i = true) ⊆
          Finset.range k := by
        intro i hi
        rw [Finset.mem_filter, Finset.mem_range] at hi
        rw [Finset.mem_range]
        by_contra hlt
        have hlast : (i : ℤ) = s.accumulatedClientId := by omega
        exact absurd hi.2 (by simp [hg.fresh i hlast])
      exact (Finset.card_le_card hsub).trans_eq (Finset.card_range k)
    | false =>
      -- only the slot being added is free
      have hsub : ((Finset.range s.allocated).filter fun i => s.connected i = false) ⊆
          {s.allocated - 1} := by
        intro i hi
        rw [Finset.mem_filter, Finset.mem_range] at hi
        rw [Finset.mem_singleton]
        by_contra hne
        have hlt : (i : ℤ) < s.accumulatedClientId := by omega
        exact absurd hi.2 (by simp [hg.full i hlt])
      exact (Finset.card_le_card hsub).trans ((Finset.card_singleton _).le.trans hk)

end EchoServer

namespace EchoSystem

variable {s s' : EchoSystem} {a : Act} {out : List Event} {name : QueueName}

theorem tokens_transit (s : EchoSystem) (hname : name ≠ .sendQueue) : ∃ rest,
    s.tokens = total (Packet.tokens · name) (s.port.transit name) + rest := by
  rw [← Multiset.le_iff_exists_add]
  have hport : total (Packet.tokens · name) (s.port.transit name) ≤ s.port.tokens := by
    unfold IOCompletionPort.tokens
    cases name with
    | sendQueue => exact absurd rfl hname
    | acceptQueue =>
      rw [add_assoc]
      exact Multiset.le_add_right _ _
    | receiveQueue => exact (Multiset.le_add_left _ _).trans (Multiset.le_add_right _ _)
    | disconnectQueue => exact Multiset.le_add_left _ _
  refine hport.trans ?_
  rw [Multiset.le_iff_exists_add]
  refine ⟨total Posted.tokens s.outstanding + total (Completed.tokens s.server) s.completed +
    total (Completed.tokens s.server) s.inHand.toList + s.server.acceptTokens s.acceptThread +
    receiveTokens s.receiveThread + disconnectTokens s.disconnectThread, ?_⟩
  unfold tokens
  abel

theorem owners_transit (hname : name ≠ .sendQueue) (l : List Packet) :
    (total (Packet.tokens · name) l).map Token.owner = (l.map Packet.clientID : List ℤ) := by
  induction l with
  | nil => rfl
  | cons p l ih =>
    rw [total_cons, Multiset.map_add, ih, List.map_cons]
    cases name with
    | sendQueue => exact absurd rfl hname
    | acceptQueue | receiveQueue | disconnectQueue => rfl

/-- The packets of a queue are of different clients, all of them connected or all of them not. -/
theorem Inv.transit_le {k : ℕ} (h : s.Inv) (hk : 1 ≤ k)
    (hid : s.server.accumulatedClientId ≤ k) (hname : name ≠ .sendQueue) :
    (s.port.transit name).length ≤ k := by
  obtain ⟨rest, htokens⟩ := tokens_transit s hname
  have hnodup : ((s.port.transit name).map Packet.clientID).Nodup := by
    have hn := h.valid.nodup
    show (Multiset.ofList _).Nodup
    rw [← owners_transit hname]
    refine Multiset.nodup_of_le (Multiset.map_le_map ?_) hn
    show _ ≤ s.tokens
    rw [htokens]
    exact Multiset.le_add_right _ _
  obtain ⟨b, hb⟩ : ∃ b, ∀ p ∈ s.port.transit name, ∃ i < s.server.allocated,
      (i : ℤ) = p.clientID ∧ s.server.connected i = b := by
    have hin (p : Packet) (hp : p ∈ s.port.transit name) (t : ClientToken)
        (ht : t ∈ p.tokens name) : t ∈ s.tokens := by
      rw [htokens, Multiset.mem_add, mem_total]
      exact .inl ⟨p, hp, ht⟩
    cases name with
    | sendQueue => exact absurd rfl hname
    | acceptQueue =>
      exact ⟨false, fun p hp => holds_waiting h.valid (hin p hp _ (Multiset.mem_singleton_self _))⟩
    | receiveQueue | disconnectQueue =>
      exact ⟨true, fun p hp => holds_serving h.valid (hin p hp _ (Multiset.mem_singleton_self _))⟩
  have hsub : ((s.port.transit name).map Packet.clientID).toFinset ⊆
      ((Finset.range s.server.allocated).filter fun i => s.server.connected i = b).image
        fun i : ℕ => (i : ℤ) := by
    intro id hid
    obtain ⟨p, hp, rfl⟩ := List.mem_map.mp (List.mem_toFinset.mp hid)
    obtain ⟨i, hi, he, hc⟩ := hb p hp
    rw [Finset.mem_image]
    exact ⟨i, Finset.mem_filter.mpr ⟨Finset.mem_range.mpr hi, hc⟩, he⟩
  calc (s.port.transit name).length
      = ((s.port.transit name).map Packet.clientID).toFinset.card := by
        rw [List.toFinset_card_of_nodup hnodup, List.length_map]
    _ ≤ _ := Finset.card_le_card hsub
    _ ≤ _ := Finset.card_image_le
    _ ≤ k := SlotsOk.card_le h.slots hk hid b

theorem contents_le {port : IOCompletionPort} {pc : PushPc Packet}
    (h : port.process = some (name, pc)) :
    (port.queues name).contents.length ≤ (port.transit name).length := by
  -- one packet more than those on their way may linger in the queue
  have hlen : (port.queues name).contents.length ≤
      ((port.queues name).unhanded (port.workers name)).length + 1 := by
    unfold unhanded
    split_ifs
    · rw [List.length_tail]
      omega
    · exact Nat.le_succ _
  rw [IOCompletionPort.transit, IOCompletionPort.pushing_self h, List.length_append]
  exact hlen

/-- Only `Process` pushes. -/
theorem pushed_of_step {p : IOCompletionPort.Pushed} (hs : machine.step s a = some (s', out))
    (hp : .pushed p ∈ out) : ∃ port', s.port.processStep = some (port', some p) := by
  cases effect_of_step hs with
  | push port' e hin hstep =>
    cases e with
    | none => exact absurd hp List.not_mem_nil
    | some q =>
      obtain rfl : p = q := by simpa using hp
      exact ⟨port', hstep⟩
  | complete => split_ifs at hp <;> simp at hp
  | receive taken pc => cases pc <;> simp [handing] at hp
  | dequeue | begin | acceptLoop | accept | sendLoop | send | receiveLoop | disconnectLoop
  | disconnect | request => exact absurd hp List.not_mem_nil

/-- A refused push finds as many packets on their way as the queue has slots, but one. -/
theorem Inv.noRefusal {k : ℕ} (h : s.Inv) (hk : 1 ≤ k) (hmax : k + 1 < maxQueueSize)
    (hid : s.server.accumulatedClientId ≤ k) (hs : machine.step s a = some (s', out)) :
    NoRefusal out := by
  rintro ⟨name, packet, accepted⟩ hp hname
  obtain ⟨port', hstep⟩ := pushed_of_step hs hp
  by_contra hr
  obtain rfl : accepted = false := Bool.eq_false_of_not_eq_true hr
  obtain ⟨name', packet', cur, hprocess, hfull⟩ :=
    (IOCompletionPort.refused_iff h.shared hstep).mp ⟨name, packet, rfl⟩
  obtain rfl : name' = name := by
    have hpush := hstep
    simp only [IOCompletionPort.processStep, hprocess, Option.map_some, Option.some.injEq] at hpush
    split at hpush
    · simp at hpush
    · simpa using (congrArg (fun r => r.2.map IOCompletionPort.Pushed.name) hpush)
  have hcontents := contents_le hprocess
  have htransit : (s.port.transit name').length ≤ k := h.transit_le hk hid hname
  omega

/-- The chunk of a successful receive of client `id` that `Process` has not dispatched. -/
def completedChunk (s : EchoSystem) (id : ℤ) (c : Completed) : Option (List UInt8) :=
  if c.op.overlapped = .receive ∧ (c.op.owner : ℤ) = id ∧ c.result = true then
    some ((s.server.heap c.op.owner).mReceiveBuf.take c.bytesTransferred)
  else none

def packetChunk (id : ℤ) (p : Packet) : Option (List UInt8) :=
  if p.clientID = id then some p.bytes else none

def receiveChunk (id : ℤ) : Option ReceivePc → Option (List UInt8)
  | some (.finder packet) => packetChunk id packet
  | some (.gather target packet) => if (target : ℤ) = id then some packet.bytes else none
  | _ => none

/-- The chunks of client `id` that were delivered and not handed to `FeedBack_Receive` yet. -/
def unhandled (s : EchoSystem) (id : ℤ) : List (List UInt8) :=
  s.completed.filterMap (s.completedChunk id) ++ s.inHand.toList.filterMap (s.completedChunk id) ++
    (s.port.transit .receiveQueue).filterMap (packetChunk id) ++
    (receiveChunk id s.receiveThread).toList

variable {id : ℤ} {chunk : List UInt8}

theorem chunks_le {α : Type} (id : ℤ) (f : α → Multiset ClientToken) (chunk : α → Option (List UInt8))
    (l : List α) (h : ∀ a ∈ l, ∀ c, chunk a = some c → f a = {.serving id c}) :
    ((l.filterMap chunk).map (Token.serving id) : Multiset ClientToken) ≤ total f l := by
  induction l with
  | nil => exact le_rfl
  | cons a l ih =>
    have hl := ih fun b hb => h b (List.mem_cons_of_mem _ hb)
    rw [total_cons]
    cases hc : chunk a with
    | none =>
      rw [List.filterMap_cons_none hc]
      exact hl.trans (Multiset.le_add_left _ _)
    | some c =>
      rw [List.filterMap_cons_some hc, h a (by simp) c hc, List.map_cons, ← Multiset.cons_coe,
        ← Multiset.singleton_add]
      exact add_le_add_right hl _

theorem unhandled_le (s : EchoSystem) (id : ℤ) :
    ((s.unhandled id).map (Token.serving id) : Multiset ClientToken) ≤ s.tokens := by
  have hcompleted (l : List Completed) := chunks_le id (Completed.tokens s.server)
    (s.completedChunk id) l fun c _ chunk hc => by
      simp only [completedChunk] at hc
      split_ifs at hc with hg
      obtain ⟨hop, rfl, hresult⟩ := hg
      rw [← Option.some.inj hc]
      simp [Completed.tokens, hop, hresult]
  have hpacket := chunks_le id (Packet.tokens · .receiveQueue) (packetChunk id)
    (s.port.transit .receiveQueue) fun p _ chunk hc => by
      simp only [packetChunk] at hc
      split_ifs at hc with hg
      rw [← Option.some.inj hc, ← hg]
      rfl
  have hthread : ((receiveChunk id s.receiveThread).toList.map (Token.serving id) :
      Multiset ClientToken) ≤ receiveTokens s.receiveThread := by
    rcases s.receiveThread with _ | pc
    · exact le_rfl
    cases pc with
    | finder packet =>
      simp only [receiveChunk, packetChunk]
      split_ifs with hid
      · simp [receiveTokens, hid]
      · exact Multiset.zero_le _
    | gather target packet =>
      simp only [receiveChunk]
      split_ifs with hid
      · simp [receiveTokens, hid]
      · exact Multiset.zero_le _
    | ready target pc => exact Multiset.zero_le _
  simp only [unhandled, List.map_append, ← Multiset.coe_add]
  refine (add_le_add (add_le_add (add_le_add (hcompleted _) (hcompleted _)) hpacket) hthread).trans ?_
  rw [Multiset.le_iff_exists_add]
  refine ⟨total Posted.tokens s.outstanding +
    total (Packet.tokens · .acceptQueue) (s.port.transit .acceptQueue) +
    total (Packet.tokens · .disconnectQueue) (s.port.transit .disconnectQueue) +
    s.server.acceptTokens s.acceptThread + disconnectTokens s.disconnectThread, ?_⟩
  unfold tokens IOCompletionPort.tokens
  abel

theorem Inv.unhandled_le_one (h : s.Inv) (id : ℤ) : (s.unhandled id).length ≤ 1 := by
  have hle := Multiset.countP_le_of_le (fun t : ClientToken => t.owner = id) (unhandled_le s id)
  have hall : Multiset.countP (fun t : ClientToken => t.owner = id)
      ((s.unhandled id).map (Token.serving id) : List ClientToken) = (s.unhandled id).length := by
    rw [Multiset.coe_countP, List.countP_map, List.countP_eq_length.mpr]
    intro chunk _
    exact decide_eq_true rfl
  rw [← hall]
  exact hle.trans (h.valid.count_le id)

theorem serving_acceptTokens {server : EchoServer} {a : Option AcceptPc} (hc : chunk ≠ []) :
    .serving id chunk ∉ server.acceptTokens a := by
  have huntried (ids : List ℤ) : .serving id chunk ∉ server.untried ids := by
    rw [EchoServer.untried, mem_total]
    rintro ⟨id', -, ht⟩
    split_ifs at ht <;> simp at ht
  rcases a with _ | pc
  · simp [acceptTokens]
  cases pc with
  | prepare pc =>
    cases pc with
    | create => exact huntried _
    | next currentId rest => exact huntried rest
    | tryAccept currentId target pc rest =>
      cases pc with
      | guard => exact huntried _
      | fill | post => simpa [acceptTokens, prepareTokens] using huntried rest
    | loadId | storeId | loadMax | storeMax => simp [acceptTokens, prepareTokens]
  | ready target pc => simp [acceptTokens, hc]
  | finder | feedBack | loadCount | storeCount | loadMax | isEmpty => simp [acceptTokens]

theorem serving_disconnectTokens {d : Option DisconnectPc} (hc : chunk ≠ []) :
    .serving id chunk ∉ disconnectTokens d := by
  rcases d with _ | pc
  · simp [disconnectTokens]
  · cases pc <;> simp [disconnectTokens, hc]

theorem mem_receiveTokens {r : Option ReceivePc} (ht : .serving id chunk ∈ receiveTokens r)
    (hc : chunk ≠ []) : receiveChunk id r = some chunk := by
  rcases r with _ | pc
  · simp [receiveTokens] at ht
  cases pc with
  | finder packet =>
    obtain ⟨rfl, rfl⟩ : id = packet.clientID ∧ chunk = packet.bytes := by
      simpa [receiveTokens] using ht
    exact if_pos rfl
  | gather target packet =>
    obtain ⟨rfl, rfl⟩ : id = target ∧ chunk = packet.bytes := by simpa [receiveTokens] using ht
    exact if_pos rfl
  | ready target pc => simp [receiveTokens, hc] at ht

theorem mem_unhandled (ht : .serving id chunk ∈ s.tokens) (hc : chunk ≠ []) :
    chunk ∈ s.unhandled id := by
  have hcompleted (c : Completed) (hct : .serving id chunk ∈ c.tokens s.server) :
      s.completedChunk id c = some chunk := by
    obtain ⟨⟨owner, overlapped⟩, result, bytesTransferred⟩ := c
    cases overlapped with
    | accept | send => simp [Completed.tokens] at hct
    | receive =>
      cases result with
      | false => simp [Completed.tokens, hc] at hct
      | true =>
        obtain ⟨rfl, rfl⟩ : id = owner ∧ chunk = _ := by simpa [Completed.tokens] using hct
        simp [completedChunk]
  simp only [unhandled, List.mem_append, List.mem_filterMap, Option.mem_toList]
  rcases mem_tokens.mp ht with (⟨op, -, ht⟩ | ⟨c, hin, ht⟩) |
    (⟨p, -, ht⟩ | ⟨p, hin, ht⟩ | ⟨p, -, ht⟩) | ht | ht | ht
  · obtain ⟨owner, overlapped⟩ := op
    cases overlapped <;> simp [Posted.tokens, hc] at ht
  · have hchunk := hcompleted c ht
    rcases List.mem_append.mp hin with hin | hin
    · exact .inl (.inl (.inl ⟨c, hin, hchunk⟩))
    · exact .inl (.inl (.inr ⟨c, Option.mem_toList.mp hin, hchunk⟩))
  · simp [Packet.tokens] at ht
  · refine .inl (.inr ⟨p, hin, ?_⟩)
    obtain ⟨rfl, rfl⟩ : id = p.clientID ∧ chunk = p.bytes := by simpa [Packet.tokens] using ht
    exact if_pos rfl
  · simp [Packet.tokens, hc] at ht
  · exact absurd ht (serving_acceptTokens hc)
  · exact .inr (mem_receiveTokens ht hc)
  · exact absurd ht (serving_disconnectTokens hc)

/-- What was delivered is what was handed and what is unhandled. -/
theorem Inv.delivered_eq {delivered handed : ℤ → List UInt8} (h : s.Inv)
    (hl : Custody.Ledger delivered handed s.custody) (id : ℤ) :
    delivered id = handed id ++ (s.unhandled id).flatten := by
  have hone := h.unhandled_le_one id
  cases hu : s.unhandled id with
  | nil =>
    -- the token of the client, if there is one, carries no bytes
    by_cases ht : ∃ p, .serving id p ∈ s.tokens
    · obtain ⟨p, hp⟩ := ht
      have hempty : p = [] := by
        by_contra hne
        have hin := mem_unhandled hp hne
        rw [hu] at hin
        exact List.not_mem_nil hin
      rw [hl.carried id p hp, hempty]
      rfl
    · rw [hl.settled id fun p hp => ht ⟨p, hp⟩]
      simp
  | cons chunk rest =>
    rw [hu] at hone
    obtain rfl : rest = [] := List.length_eq_zero_iff.mp (Nat.le_zero.mp (Nat.le_of_succ_le_succ hone))
    have hin : .serving id chunk ∈ s.tokens := by
      apply Multiset.mem_of_le (unhandled_le s id)
      simp [hu]
    rw [hl.carried id chunk hin]
    simp

theorem deliveredTo_append (es es' : List Event) :
    deliveredTo id (es ++ es') = deliveredTo id es ++ deliveredTo id es' := List.flatMap_append

theorem handedTo_append (es es' : List Event) :
    handedTo id (es ++ es') = handedTo id es ++ handedTo id es' := List.flatMap_append

def Few (s : EchoSystem) : Prop := s.server.accumulatedClientId ≤ ((maxQueueSize - 2 : ℕ) : ℤ)

instance (s : EchoSystem) : Decidable s.Few :=
  inferInstanceAs (Decidable (s.server.accumulatedClientId ≤ ((maxQueueSize - 2 : ℕ) : ℤ)))

theorem start_ledger (memory : ℕ → ClientDataSet) (buffers : QueueName → ℕ → Packet) (n : ℕ)
    (errorCode : ℤ → ℤ) (taken : ℕ → Bool) : Custody.Ledger (fun _ => []) (fun _ => [])
      (start memory buffers n errorCode taken).custody := by
  refine ⟨fun id p hp => ?_, fun _ _ => rfl⟩
  have hp' : .serving id p ∈ (start memory buffers n errorCode taken).tokens := hp
  rw [start_tokens, Multiset.mem_coe, List.mem_map] at hp'
  obtain ⟨i, -, he⟩ := hp'
  exact absurd he (by simp)

/-- With at most 98 ids given out no packet of a client is refused, and what the kernel delivered
to a client is what `FeedBack_Receive` got, in order, and at most one chunk more. -/
theorem stream_along (memory : ℕ → ClientDataSet) (buffers : QueueName → ℕ → Packet) (n : ℕ)
    (errorCode : ℤ → ℤ) (taken : ℕ → Bool) (as : List Act) (ha : ∀ a ∈ as, SendsTransfer a)
    (hid : machine.Along (start memory buffers n errorCode taken) as fun _ s => s.Few) :
    machine.Along (start memory buffers n errorCode taken) as fun es s =>
      NoRefusal es ∧ ∀ id, (s.unhandled id).length ≤ 1 ∧
        deliveredTo id es = handedTo id es ++ (s.unhandled id).flatten := by
  have hrun : machine.Along (start memory buffers n errorCode taken) as fun es s =>
      s.Inv ∧ NoRefusal es ∧ Custody.Ledger (deliveredTo · es) (handedTo · es) s.custody := by
    refine Machine.Steps.along (C := fun s a => SendsTransfer a ∧ s.Few) ?_ ?_ ?_
    · intro bs a es s hp hr
      exact ⟨ha a (hp.subset (by simp)), hid bs es s ((List.prefix_append bs [a]).trans hp) hr⟩
    · exact ⟨start_inv memory buffers n errorCode taken, fun p hp => absurd hp List.not_mem_nil,
        start_ledger memory buffers n errorCode taken⟩
    · rintro es s a s' out ⟨h, hno, hl⟩ ⟨hsend, hle⟩ hs
      have hout := h.noRefusal (by decide) (by decide) hle hs
      obtain ⟨h', l, ho⟩ := h.step hsend hs
      refine ⟨h', fun p hp => ?_, ?_⟩
      · rcases List.mem_append.mp hp with hp | hp
        · exact hno p hp
        · exact hout p hp
      · have hstep := hl.step h.valid ho.step (ho.payload hout)
        simpa only [ho.delivered, ho.handed, ← deliveredTo_append, ← handedTo_append] using hstep
  intro bs es s hp hr
  obtain ⟨h, hno, hl⟩ := hrun bs es s hp hr
  exact ⟨hno, fun id => ⟨h.unhandled_le_one id, h.delivered_eq hl id⟩⟩

/-- The client of the only slot sends two bytes; when `FeedBack_Receive` has got them and armed the
receive again, one more byte comes, before the worker pops the packet of the first two. -/
def twoBytes : List Act :=
  oneAccept ++ .complete ⟨0, .receive⟩ true [7, 8] :: .dequeue ⟨⟨0, .receive⟩, true, 2⟩ ::
    (List.replicate 5 .process ++ List.replicate 9 (.receive true) ++
      [.complete ⟨0, .receive⟩ true [9]])

theorem stream_along_twoBytes :
    (machine.run (start (fun _ => default) (fun _ _ => default) 1 (fun _ => 0) fun _ => true)
      twoBytes).map (fun r => (deliveredTo 0 r.2, handedTo 0 r.2, r.1.unhandled 0)) =
        some ([7, 8, 9], [7, 8], [[9]]) ∧
    machine.Along (start (fun _ => default) (fun _ _ => default) 1 (fun _ => 0) fun _ => true)
      twoBytes fun es s => NoRefusal es ∧ ∀ id, (s.unhandled id).length ≤ 1 ∧
        deliveredTo id es = handedTo id es ++ (s.unhandled id).flatten := by
  refine ⟨by decide +kernel, stream_along _ _ _ _ _ _ ?_ ?_⟩
  · intro a ha
    simp only [twoBytes, oneAccept, List.mem_append, List.mem_cons, List.mem_replicate,
      List.not_mem_nil, or_false] at ha
    rcases ha with (rfl | rfl | ⟨-, rfl⟩ | ⟨-, rfl⟩) | rfl | rfl | (⟨-, rfl⟩ | ⟨-, rfl⟩) | rfl <;>
      trivial
  · exact Machine.along_of_inits (by decide +kernel)

end EchoSystem

end EchoIocp
