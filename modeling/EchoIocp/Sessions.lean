import EchoIocp.Routing

namespace EchoIocp

open LockFreeCircleQueue ClientDataSet EchoServer

namespace EchoSystem

/-- The client that a step of `AcceptProcess` calls `FeedBack_Accept` for. -/
def connects : AcceptPc → List ℕ
  | .feedBack target => [target]
  | _ => []

def connecting (s : EchoSystem) : Act → List ℕ
  | .accept _ _ => s.acceptThread.elim [] connects
  | _ => []

/-- The slots connected are those that were, each once; a slot was added only when all of them
were connected. -/
structure Serves (s : EchoSystem) (n : ℕ) (cs : List ℕ) : Prop where
  nodup : cs.Nodup
  connected : ∀ i, i ∈ cs ↔ i < s.server.allocated ∧ s.server.connected i = true
  slots : s.server.allocated ≤ max n (cs.length + 1)

variable {s s' : EchoSystem} {a : Act} {out : List Event} {n : ℕ} {cs : List ℕ}

theorem Serves.same (h : s.Serves n cs) (ha : s'.server.allocated = s.server.allocated)
    (hc : s'.server.connected = s.server.connected) : s'.Serves n cs := by
  refine ⟨h.nodup, fun i => ?_, ?_⟩
  · rw [ha, hc]
    exact h.connected i
  · rw [ha]
    exact h.slots

theorem Serves.still (h : s.Serves n cs) (hs : Still s.server s'.server) : s'.Serves n cs :=
  h.same hs.allocated hs.connected

theorem Serves.full (h : s.Serves n cs) (hf : s.server.Full) : cs.length = s.server.allocated := by
  have hperm : cs.Perm (List.range s.server.allocated) := by
    apply (List.perm_ext_iff_of_nodup h.nodup List.nodup_range).mpr
    intro i
    rw [h.connected, List.mem_range]
    exact ⟨And.left, fun hi => ⟨hi, hf i hi⟩⟩
  rw [hperm.length_eq, List.length_range]

theorem Serves.connect {target : ℕ} (h : s.Serves n cs) (ht : target < s.server.allocated)
    (hc : s.server.connected target = false)
    (hs : s'.server = s.server.assign target ((s.server.heap target).setConnet true)) :
    s'.Serves n (cs ++ [target]) := by
  have hnew : target ∉ cs := fun hmem => by
    have hold := ((h.connected target).mp hmem).2
    rw [hc] at hold
    cases hold
  have ha : s'.server.allocated = s.server.allocated := by
    rw [hs]
    rfl
  have hconn (i : ℕ) : s'.server.connected i = if i = target then true else s.server.connected i := by
    rw [hs, assign_connected]
    rfl
  refine ⟨?_, fun i => ?_, ?_⟩
  · apply h.nodup.append (List.nodup_singleton target)
    intro i hi ht
    exact hnew (List.mem_singleton.mp ht ▸ hi)
  · rw [List.mem_append, List.mem_singleton, h.connected, ha, hconn]
    by_cases hi : i = target
    · simp [hi, ht]
    · simp [hi]
  · have hslots := h.slots
    rw [ha, List.length_append, List.length_singleton]
    omega

theorem Serves.grow {currentId : ℤ} (h : s.Serves n cs) (hf : s.server.Full)
    (hs : s'.server = s.server.createClient currentId) : s'.Serves n cs := by
  have hlen := h.full hf
  have ha : s'.server.allocated = s.server.allocated + 1 := by
    rw [hs]
    rfl
  refine ⟨h.nodup, fun i => ?_, ?_⟩
  · rw [h.connected, ha, hs, createClient_connected]
    by_cases hi : i = s.server.allocated
    · simp [hi]
    · rw [if_neg hi]
      exact and_congr_left fun _ => ⟨fun _ => by omega, fun _ => by omega⟩
  · omega

theorem Serves.accept (h : s.Serves n cs) {pc : AcceptPc} (errorCode : ℤ)
    (hslots : s.server.SlotsOk (some pc)) (hholds : s.server.HoldsAccept pc)
    (hs : s'.server = (s.server.acceptStep errorCode pc).1) :
    s'.Serves n (cs ++ connects pc) := by
  have hnil (hc : connects pc = []) : cs ++ connects pc = cs := by
    rw [hc, List.append_nil]
  cases pc with
  | feedBack target => exact h.connect hholds.1 hholds.2 hs
  | prepare pc =>
    rw [hnil rfl]
    cases pc with
    | create currentId limit =>
      obtain ⟨hcur, hlimit, hgrow⟩ := hslots
      unfold acceptStep prepareStep at hs
      dsimp only at hs
      split_ifs at hs with hlt
      · rcases hgrow with ⟨-, hfull⟩ | hgrowing
        · exact h.grow hfull hs
        · have := hgrowing.nextId
          omega
      · exact h.same (by rw [hs]) (by rw [hs])
    | next currentId rest =>
      cases rest with
      | nil => exact h.same (by rw [hs]; rfl) (by rw [hs]; rfl)
      | cons id rest =>
        unfold acceptStep prepareStep at hs
        dsimp only at hs
        split at hs <;> exact h.same (by rw [hs]) (by rw [hs])
    | tryAccept currentId target pc rest =>
      apply h.still
      rw [hs]
      exact (Calm.assign (tryAcceptStep_kept _ errorCode pc)).toStill
    | loadId | storeId | loadMax | storeMax => exact h.same (by rw [hs]; rfl) (by rw [hs]; rfl)
  | ready target pc =>
    rw [hnil rfl]
    apply h.still
    rw [hs]
    exact (Calm.assign (receiveReadyStep_kept _ pc)).toStill
  | isEmpty currentMax =>
    rw [hnil rfl]
    unfold acceptStep at hs
    dsimp only at hs
    split_ifs at hs <;> exact h.same (by rw [hs]) (by rw [hs])
  | finder | loadCount | storeCount | loadMax =>
    rw [hnil rfl]
    exact h.same (by rw [hs]; rfl) (by rw [hs]; rfl)

theorem Serves.step (h : s.Serves n cs) (hi : s.hush.Inv) (hs : machine.step s a = some (s', out)) :
    s'.Serves n (cs ++ s.connecting a) := by
  have hnil (hl : s.connecting a = []) : cs ++ s.connecting a = cs := by
    rw [hl, List.append_nil]
  cases effect_of_step hs with
  | complete op result bytes hop hlen =>
    rw [hnil rfl]
    apply h.still
    dsimp only
    split_ifs
    · exact deliver_still s.server op.owner bytes
    · exact (Calm.refl _).toStill
  | dequeue | begin | push | sendLoop | receiveLoop | disconnectLoop =>
    rw [hnil rfl]
    exact h.same rfl rfl
  | acceptLoop errorCode taken hpc =>
    rw [hnil (by rw [connecting, hpc, Option.elim_none])]
    exact h.same rfl rfl
  | accept errorCode taken pc hpc =>
    have hcall : s.connecting (.accept errorCode taken) = connects pc := by
      unfold connecting
      rw [hpc, Option.elim_some]
    have hslots : s.server.SlotsOk (some pc) := hpc ▸ hi.slots
    rw [hcall]
    exact h.accept errorCode hslots (hi.holdsAccept hpc) rfl
  | send taken pc hpc =>
    rw [hnil rfl]
    exact h.still (sendStep_calm s.server 0 pc).toStill
  | receive taken pc hpc =>
    rw [hnil rfl]
    exact h.still (receiveStep_calm s.server 0 pc).toStill
  | disconnect errorCode taken pc hpc =>
    rw [hnil rfl]
    cases pc with
    | tryAccept target pc => exact h.still (Calm.assign (tryAcceptStep_kept _ errorCode pc)).toStill
    | finder | loadCount | storeCount => exact h.same rfl rfl
  | request clientID dataSize messageBuff taken target hf =>
    rw [hnil rfl]
    exact h.still (Calm.assign (sendRequest_kept _ _ _)).toStill

theorem start_serves (memory : ℕ → ClientDataSet) (buffers : QueueName → ℕ → Packet) (n : ℕ)
    (errorCode : ℤ → ℤ) (taken : ℕ → Bool) :
    (start memory buffers n errorCode taken).Serves n [] := by
  have ha := (start_grown memory buffers n errorCode taken).allocated.trans (Nat.zero_add n)
  refine ⟨List.nodup_nil, fun i => ?_, ?_⟩
  · apply iff_of_false List.not_mem_nil
    rintro ⟨hi, hc⟩
    rw [start_connected memory buffers n errorCode taken i (ha ▸ hi)] at hc
    cases hc
  · rw [ha]
    exact le_max_left _ _

/-- `FeedBack_Accept` is called at most once for a slot, as `mIsConnet` stays set; the slots with it
set are those it was called for, and a slot is added only behind slots that all have it set. -/
theorem sessions_along (memory : ℕ → ClientDataSet) (buffers : QueueName → ℕ → Packet) (n : ℕ)
    (errorCode : ℤ → ℤ) (taken : ℕ → Bool) (as : List Act) :
    (machine.observing connecting).Along (start memory buffers n errorCode taken) as fun cs s =>
      cs.Nodup ∧ (∀ i, i ∈ cs ↔ i < s.server.allocated ∧ s.server.connected i = true) ∧
        s.server.allocated ≤ max n (cs.length + 1) := by
  have hserves : (machine.observing connecting).Along (start memory buffers n errorCode taken) as
      fun cs s => s.Routable ∧ s.Serves n cs := by
    apply Machine.along_of_step
    · exact ⟨start_routable memory buffers n errorCode taken,
        start_serves memory buffers n errorCode taken⟩
    · intro cs s a s' out h hs
      obtain ⟨⟨e, hstep⟩, rfl⟩ := Machine.observing_step.mp hs
      exact ⟨h.1.step hstep, h.2.step h.1.serving hstep⟩
  intro bs cs s hp hr
  obtain ⟨-, h⟩ := hserves bs cs s hp hr
  exact ⟨h.nodup, h.connected, h.slots⟩

/-- The client of the only slot is accepted, and a second slot is added for the next. -/
example : ((machine.observing connecting).run
    (start (fun _ => default) (fun _ _ => default) 1 (fun _ => 0) fun _ => true)
    (oneAccept ++ List.replicate 16 (.accept 0 true))).map
      (fun r => (r.2, r.1.server.allocated)) = some ([0], 2) := by decide +kernel

/-- Operations on the accept and receive contexts, and packets of the two queues that serve. -/
def underway (s : EchoSystem) : ℕ :=
  s.inFlight.countP Posted.serves + (s.port.transit .acceptQueue).length +
    (s.port.transit .receiveQueue).length

theorem countP_le_card_total {α : Type} (f : α → Multiset ClientToken) (p : α → Bool) (l : List α)
    (h : ∀ a ∈ l, p a = true → f a ≠ 0) : l.countP p ≤ (total f l).card := by
  induction l with
  | nil => simp
  | cons a l ih =>
    rw [total_cons, Multiset.card_add, List.countP_cons]
    have hl := ih fun b hb => h b (List.mem_cons_of_mem _ hb)
    by_cases hp : p a = true
    · have := Multiset.card_pos.mpr (h a List.mem_cons_self hp)
      rw [if_pos hp]
      omega
    · rw [if_neg hp]
      omega

theorem transit_le_card (name : QueueName) (hname : name.serves = true) (l : List Packet) :
    l.length ≤ (total (Packet.tokens · name) l).card := by
  rw [← List.countP_true]
  apply countP_le_card_total
  intro packet _ _
  cases name with
  | acceptQueue | receiveQueue => exact Multiset.singleton_ne_zero _
  | sendQueue | disconnectQueue => exact absurd hname (by simp [QueueName.serves])

theorem Posted.serves_tokens (op : Posted) (h : op.serves = true) : op.tokens ≠ 0 := by
  obtain ⟨owner, overlapped⟩ := op
  cases overlapped with
  | accept | receive => exact Multiset.singleton_ne_zero _
  | send context => exact absurd h (by simp [Posted.serves])

theorem Completed.serves_tokens (server : EchoServer) (c : Completed) (h : c.op.serves = true) :
    c.tokens server ≠ 0 := by
  obtain ⟨⟨owner, overlapped⟩, result, bytesTransferred⟩ := c
  cases overlapped with
  | accept | receive => exact Multiset.singleton_ne_zero _
  | send context => exact absurd h (by simp [Posted.serves])

theorem underway_le_card (s : EchoSystem) : s.underway ≤ s.tokens.card := by
  have hposted := countP_le_card_total Posted.tokens Posted.serves s.outstanding fun op _ =>
    Posted.serves_tokens op
  have hcompleted (l : List Completed) := countP_le_card_total (Completed.tokens s.server)
    (fun c => c.op.serves) l fun c _ => Completed.serves_tokens s.server c
  have hops : s.inFlight.countP Posted.serves ≤ (total Posted.tokens s.outstanding).card +
      ((total (Completed.tokens s.server) s.completed).card +
        (total (Completed.tokens s.server) s.inHand.toList).card) := by
    rw [inFlight, List.map_append, List.countP_append, List.countP_append, List.countP_map,
      List.countP_map]
    exact Nat.add_le_add hposted (Nat.add_le_add (hcompleted _) (hcompleted _))
  have haccept := transit_le_card .acceptQueue rfl (s.port.transit .acceptQueue)
  have hreceive := transit_le_card .receiveQueue rfl (s.port.transit .receiveQueue)
  simp only [underway, tokens, IOCompletionPort.tokens, Multiset.card_add]
  omega

theorem Inv.tokens_le (h : s.Inv) : s.tokens.card ≤ s.server.allocated := by
  have hmembers : ∀ i ∈ s.custody.members,
      i ∈ (Finset.range s.server.allocated).image fun i : ℕ => (i : ℤ) := by
    rintro id ⟨i, hi, rfl⟩
    exact Finset.mem_image_of_mem _ (Finset.mem_range.mpr hi)
  calc s.tokens.card
      ≤ ((Finset.range s.server.allocated).image fun i : ℕ => (i : ℤ)).card :=
        h.valid.card_le hmembers
    _ ≤ (Finset.range s.server.allocated).card := Finset.card_image_le
    _ = s.server.allocated := Finset.card_range _

theorem hush_underway (s : EchoSystem) : s.hush.underway = s.underway := by
  have hposted : (s.outstanding.filter Posted.serves).countP Posted.serves =
      s.outstanding.countP Posted.serves := by
    rw [List.countP_filter]
    simp
  have hcompleted (l : List Completed) : (l.filter fun c => c.op.serves).countP
      (Posted.serves ∘ Completed.op) = l.countP (Posted.serves ∘ Completed.op) := by
    rw [List.countP_filter]
    simp [Function.comp_def]
  unfold underway
  rw [show s.hush.port = s.port.hush from rfl, IOCompletionPort.hush_transit _ _ rfl,
    IOCompletionPort.hush_transit _ _ rfl]
  simp only [inFlight, List.map_append, List.countP_append, List.countP_map, hush,
    Option.toList_filter, hposted, hcompleted]

/-- No more accepts and receives are on their way than there are slots. -/
theorem underway_along (memory : ℕ → ClientDataSet) (buffers : QueueName → ℕ → Packet) (n : ℕ)
    (errorCode : ℤ → ℤ) (taken : ℕ → Bool) (as : List Act) :
    machine.Along (start memory buffers n errorCode taken) as fun _ s =>
      s.underway ≤ s.server.allocated := by
  intro bs es s hp hr
  obtain ⟨h, -⟩ := (start_routable memory buffers n errorCode taken).along as bs es s hp hr
  rw [← hush_underway]
  exact (underway_le_card s.hush).trans h.serving.tokens_le

end EchoSystem

end EchoIocp
