import EchoIocp.Framing
import EchoIocp.Stream

namespace EchoIocp

open LockFreeCircleQueue ClientDataSet EchoServer

namespace ClientDataSet

variable {c : ClientDataSet} {dataSize : ℕ} {messageBuff : List UInt8}

/-- Nothing queued, and less held back than makes two packets. -/
structure Gathered (c : ClientDataSet) : Prop where
  inRange : c.mReceiveDataQueue.InRange
  drained : c.mReceiveDataQueue.contents = []
  residue : c.mReceiveBuffer.length ≤ mBufferSize

/-- What the receive thread alone works on. -/
structure SameReceived (c c' : ClientDataSet) : Prop where
  id : c'.mID = c.mID
  queue : c'.mReceiveDataQueue = c.mReceiveDataQueue
  buffer : c'.mReceiveBuffer = c.mReceiveBuffer

theorem SameReceived.refl (c : ClientDataSet) : SameReceived c c := ⟨rfl, rfl, rfl⟩

theorem Gathered.gather (h : c.Gathered)
    (hlen : (messageBuff.take dataSize).length ≤ maxSockRecvBuf) :
    (c.gather dataSize messageBuff).1.Gathered ∧
      (c.gather dataSize messageBuff).1.mReceiveBuffer =
        Frames.rest mBufferSize (c.mReceiveBuffer ++ messageBuff.take dataSize) ∧
      processed (c.gather dataSize messageBuff).2 =
        (Frames.cut mBufferSize (c.mReceiveBuffer ++ messageBuff.take dataSize)).map
          (framed c.mID) := by
  obtain ⟨hin, hdrained, hres⟩ := gather_spec c dataSize messageBuff h.inRange
  let g := c.growBy dataSize messageBuff
  have hempty : g.mReceiveDataQueue.contents = [] := h.drained
  have hbuf : g.mReceiveBuffer = c.mReceiveBuffer ++ messageBuff.take dataSize := rfl
  have hroom : g.mReceiveDataQueue.contents.length + Frames.count mBufferSize g.mReceiveBuffer <
      maxQueueSize := by
    have hlen' : g.mReceiveBuffer.length ≤ mBufferSize + maxSockRecvBuf := by
      rw [hbuf, List.length_append]
      exact Nat.add_le_add h.residue hlen
    unfold Frames.count
    rw [hempty, List.length_nil]
    simp only [mBufferSize, maxSockRecvBuf, maxQueueSize] at *
    omega
  obtain ⟨hrest, hqueue, -⟩ := cutPackets_spec (c := g) h.inRange (Nat.le_refl _) hroom
  rw [hempty, List.nil_append] at hqueue
  have hcut := cutPackets_inRange (c := g) g.mReceiveBuffer.length h.inRange
  obtain ⟨-, -, hout⟩ := drain_spec hcut (Nat.le_of_lt (length_lt hcut))
  refine ⟨⟨hin, hdrained, hres⟩, ?_, ?_⟩
  · change (drain maxQueueSize _).1.mReceiveBuffer = _
    rw [drain_frame]
    exact hrest
  · change processed (drain maxQueueSize _).2 = _
    rw [hout, hqueue]
    simp [processed, List.filterMap_map, g, growBy]

end ClientDataSet

namespace EchoServer

variable {s : EchoServer} {target i : ℕ} {c : ClientDataSet}

theorem sameReceived_assign (h : SameReceived (s.heap target) c) (i : ℕ) :
    SameReceived (s.heap i) ((s.assign target c).heap i) :=
  assign_cases h SameReceived.refl i

theorem tryAcceptStep_sameReceived (c : ClientDataSet) (errorCode : ℤ) (pc : TryAcceptPc) :
    SameReceived c (c.tryAcceptStep errorCode pc).1 := by
  cases pc with
  | guard =>
    unfold tryAcceptStep
    split_ifs <;> exact SameReceived.refl c
  | fill => exact ⟨rfl, rfl, rfl⟩
  | post => exact SameReceived.refl c

theorem receiveReadyStep_sameReceived (c : ClientDataSet) (pc : ReceiveReadyPc) :
    SameReceived c (c.receiveReadyStep pc).1 := by
  cases pc with
  | guard =>
    unfold receiveReadyStep
    split_ifs <;> exact SameReceived.refl c
  | fill => exact ⟨rfl, rfl, rfl⟩
  | post => exact SameReceived.refl c

theorem sendRequest_sameReceived (c : ClientDataSet) (dataSize : ℕ) (messageBuff : BufferPtr) :
    SameReceived c (c.sendRequest dataSize messageBuff).1 := by
  simp only [sendRequest]
  split_ifs
  · exact SameReceived.refl c
  · exact ⟨rfl, rfl, rfl⟩
  · exact ⟨rfl, rfl, rfl⟩

theorem deliver_sameReceived (s : EchoServer) (owner : ℕ) (bytes : List UInt8) (i : ℕ) :
    SameReceived (s.heap i) ((s.deliver owner bytes).heap i) := by
  apply sameReceived_assign
  exact ⟨rfl, rfl, rfl⟩

theorem acceptStep_sameReceived (s : EchoServer) (errorCode : ℤ) (pc : AcceptPc)
    (hi : i < s.allocated) : SameReceived (s.heap i) ((s.acceptStep errorCode pc).1.heap i) := by
  cases pc with
  | feedBack target =>
    exact sameReceived_assign (c := (s.heap target).setConnet true) ⟨rfl, rfl, rfl⟩ i
  | ready target pc => exact sameReceived_assign (receiveReadyStep_sameReceived _ pc) i
  | isEmpty currentMax =>
    unfold acceptStep
    dsimp only
    split_ifs <;> exact SameReceived.refl _
  | finder | loadCount | storeCount | loadMax => exact SameReceived.refl _
  | prepare pc =>
    cases pc with
    | create currentId limit =>
      unfold acceptStep prepareStep
      dsimp only
      split_ifs
      · rw [show (s.createClient currentId).heap i = s.heap i from
          Function.update_of_ne hi.ne _ _]
        exact SameReceived.refl _
      · exact SameReceived.refl _
    | next currentId rest =>
      cases rest with
      | nil => exact SameReceived.refl _
      | cons id rest =>
        unfold acceptStep prepareStep
        dsimp only
        split <;> exact SameReceived.refl _
    | tryAccept currentId target pc rest =>
      exact sameReceived_assign (tryAcceptStep_sameReceived _ errorCode pc) i
    | loadId | storeId | loadMax | storeMax => exact SameReceived.refl _

theorem acceptStep_added (s : EchoServer) (errorCode : ℤ) (pc : AcceptPc) (hi : s.allocated ≤ i)
    (hi' : i < (s.acceptStep errorCode pc).1.allocated) :
    ((s.acceptStep errorCode pc).1.heap i).Gathered ∧
      ((s.acceptStep errorCode pc).1.heap i).mReceiveBuffer = [] := by
  -- a slot that was added has received nothing
  have hsame : (s.acceptStep errorCode pc).1.allocated ≠ s.allocated := by omega
  cases pc with
  | finder | feedBack | ready | loadCount | storeCount | loadMax => exact absurd rfl hsame
  | isEmpty currentMax =>
    unfold acceptStep at hsame
    dsimp only at hsame
    split_ifs at hsame <;> exact absurd rfl hsame
  | prepare pc =>
    cases pc with
    | create currentId limit =>
      unfold acceptStep prepareStep at hi' hsame ⊢
      dsimp only at hi' hsame ⊢
      split_ifs at hi' hsame ⊢ with hlt
      · obtain rfl : i = s.allocated := Nat.le_antisymm (Nat.lt_succ_iff.mp hi') hi
        rw [show (s.createClient currentId).heap s.allocated =
          .new (s.heap s.allocated) currentId s.sockets from Function.update_self _ _ _]
        exact ⟨⟨new_inRange _, new_contents _, Nat.zero_le _⟩, rfl⟩
      · exact absurd rfl hsame
    | next currentId rest =>
      cases rest with
      | nil => exact absurd rfl hsame
      | cons id rest =>
        unfold acceptStep prepareStep at hsame
        dsimp only at hsame
        split at hsame <;> exact absurd rfl hsame
    | tryAccept | loadId | storeId | loadMax | storeMax => exact absurd rfl hsame

theorem tryAccept_sameReceived (c : ClientDataSet) (errorCode : ℤ) :
    SameReceived c (c.tryAccept errorCode).1 := by
  simp only [tryAccept]
  split_ifs
  · exact SameReceived.refl c
  · exact SameReceived.refl c
  · exact ⟨rfl, rfl, rfl⟩

def Untouched (s : EchoServer) : Prop :=
  ∀ i < s.allocated, (s.heap i).Gathered ∧ (s.heap i).mReceiveBuffer = []

theorem createClients_untouched (n : ℕ) (currentId : ℤ) (h : s.Untouched) :
    (createClients n currentId s).Untouched := by
  induction n generalizing s currentId with
  | zero => exact h
  | succ n ih =>
    apply ih
    intro i hi
    by_cases hn : i = s.allocated
    · rw [hn, show (s.createClient currentId).heap s.allocated =
        .new (s.heap s.allocated) currentId s.sockets from Function.update_self _ _ _]
      exact ⟨⟨new_inRange _, new_contents _, Nat.zero_le _⟩, rfl⟩
    · rw [show (s.createClient currentId).heap i = s.heap i from Function.update_of_ne hn _ _]
      exact h i (Nat.lt_of_le_of_ne (Nat.lt_succ_iff.mp hi) hn)

theorem tryAcceptAll_untouched (errorCode : ℤ → ℤ) (ids : List ℤ) (h : s.Untouched) :
    (tryAcceptAll errorCode ids s).1.Untouched := by
  induction ids generalizing s with
  | nil => exact h
  | cons id rest ih =>
    simp only [tryAcceptAll]
    cases s.clientFinder id with
    | none => exact ih h
    | some target =>
      apply ih
      intro i hi
      have hsame := sameReceived_assign (tryAccept_sameReceived (s.heap target) (errorCode id)) i
      obtain ⟨hg, hbuf⟩ := h i hi
      refine ⟨⟨?_, ?_, ?_⟩, hsame.buffer.trans hbuf⟩
      · rw [hsame.queue]
        exact hg.inRange
      · rw [hsame.queue]
        exact hg.drained
      · rw [hsame.buffer]
        exact hg.residue

theorem start_untouched (memory : ℕ → ClientDataSet) (n : ℕ) (errorCode : ℤ → ℤ) :
    ((new memory).prepareSocket n errorCode).1.Untouched :=
  tryAcceptAll_untouched errorCode _
    (createClients_untouched n _ fun _ hi => absurd hi (Nat.not_lt_zero _))

theorem disconnectStep_sameReceived (s : EchoServer) (errorCode : ℤ) (pc : DisconnectPc) (i : ℕ) :
    SameReceived (s.heap i) ((s.disconnectStep errorCode pc).1.heap i) := by
  cases pc with
  | tryAccept target pc => exact sameReceived_assign (tryAcceptStep_sameReceived _ errorCode pc) i
  | finder | loadCount | storeCount => exact SameReceived.refl _

theorem sendStep_sameReceived (s : EchoServer) (pc : SendPc) (i : ℕ) :
    SameReceived (s.heap i) ((s.sendStep 0 pc).1.heap i) := by
  cases pc with
  | finder packet => exact SameReceived.refl _
  | request target packet => exact sameReceived_assign (sendRequest_sameReceived _ _ _) i

end EchoServer

namespace EchoSystem

/-- The packets a step of the receive thread processes, each with its client. -/
def processing (s : EchoSystem) : Act → List (ℕ × Option DataPacket)
  | .receive _ =>
    match s.receiveThread with
    | some (.gather target packet) =>
      (processed ((s.server.heap target).gather packet.dataSize (packet.buffer.getD [])).2).map
        fun p => (target, p)
    | _ => []
  | _ => []

def processedOf (i : ℕ) (fs : List (ℕ × Option DataPacket)) : List (Option DataPacket) :=
  fs.filterMap fun f => if f.1 = i then some f.2 else none

theorem processedOf_append (i : ℕ) (fs fs' : List (ℕ × Option DataPacket)) :
    processedOf i (fs ++ fs') = processedOf i fs ++ processedOf i fs' := List.filterMap_append

/-- Each client has been processed the frames of what it was handed, and holds back the rest. -/
structure Framed (s : EchoSystem) (es : List Event) (fs : List (ℕ × Option DataPacket)) : Prop where
  clients : ∀ i < s.server.allocated, (s.server.heap i).Gathered ∧
    (s.server.heap i).mReceiveBuffer = Frames.rest mBufferSize (handedTo i es)
  frames : ∀ i : ℕ, processedOf i fs = (Frames.cut mBufferSize (handedTo i es)).map (framed i)
  unborn : ∀ i : ℕ, s.server.allocated ≤ i → handedTo i es = []

variable {s s' : EchoSystem} {a : Act} {es out : List Event} {fs : List (ℕ × Option DataPacket)}

theorem Framed.quiet (h : s.Framed es fs) (hout : ∀ i, handedTo i out = [])
    (ha : s.server.allocated ≤ s'.server.allocated)
    (hsame : ∀ i < s.server.allocated, SameReceived (s.server.heap i) (s'.server.heap i))
    (hadd : ∀ i, s.server.allocated ≤ i → i < s'.server.allocated →
      (s'.server.heap i).Gathered ∧ (s'.server.heap i).mReceiveBuffer = []) :
    s'.Framed (es ++ out) fs := by
  have hhanded (i : ℤ) : handedTo i (es ++ out) = handedTo i es := by
    rw [handedTo_append, hout, List.append_nil]
  refine ⟨fun i hi => ?_, fun i => ?_, fun i hi => ?_⟩
  · rw [hhanded]
    rcases Nat.lt_or_ge i s.server.allocated with hlt | hge
    · obtain ⟨hg, hbuf⟩ := h.clients i hlt
      have hkeep := hsame i hlt
      refine ⟨⟨?_, ?_, ?_⟩, ?_⟩
      · rw [hkeep.queue]
        exact hg.inRange
      · rw [hkeep.queue]
        exact hg.drained
      · rw [hkeep.buffer]
        exact hg.residue
      · rw [hkeep.buffer]
        exact hbuf
    · obtain ⟨hg, hbuf⟩ := hadd i hge hi
      refine ⟨hg, ?_⟩
      rw [hbuf, h.unborn i hge]
      rfl
  · rw [hhanded]
    exact h.frames i
  · rw [hhanded]
    exact h.unborn i (ha.trans hi)

theorem Framed.calm (h : s.Framed es fs) (hout : ∀ i, handedTo i out = [])
    (ha : s'.server.allocated = s.server.allocated)
    (hsame : ∀ i, SameReceived (s.server.heap i) (s'.server.heap i)) : s'.Framed (es ++ out) fs :=
  h.quiet hout ha.ge (fun i _ => hsame i) fun _ hge hlt => absurd (ha ▸ hlt) hge.not_gt

theorem Framed.same (h : s.Framed es fs) (hout : ∀ i, handedTo i out = [])
    (hserver : s'.server = s.server) : s'.Framed (es ++ out) fs :=
  h.calm hout (by rw [hserver]) fun i => hserver ▸ SameReceived.refl _

theorem handedTo_handing (i : ℤ) (target : ℕ) (packet : Packet) :
    handedTo i (handing (.gather target packet)) = if (target : ℤ) = i then packet.bytes else [] := by
  simp [handedTo, handing]

theorem processedOf_map (i target : ℕ) (l : List (Option DataPacket)) :
    processedOf i (l.map fun p => (target, p)) = if target = i then l else [] := by
  unfold processedOf
  rw [List.filterMap_map]
  by_cases ht : target = i <;> simp [ht]

/-- The client of a packet takes its bytes. -/
theorem Framed.gather (h : s.Framed es fs) (hn : s.server.Numbered) {target : ℕ} {packet : Packet}
    (ht : target < s.server.allocated) (hlen : packet.bytes.length ≤ maxSockRecvBuf)
    (hserver : s'.server = s.server.assign target
      ((s.server.heap target).gather packet.dataSize (packet.buffer.getD [])).1) :
    s'.Framed (es ++ handing (.gather target packet)) (fs ++
      (processed ((s.server.heap target).gather packet.dataSize (packet.buffer.getD [])).2).map
        fun p => (target, p)) := by
  obtain ⟨hg, hbuf⟩ := h.clients target ht
  have hlen' : ((packet.buffer.getD []).take packet.dataSize).length ≤ maxSockRecvBuf := hlen
  obtain ⟨hg', hbuf', hout⟩ := hg.gather hlen'
  obtain ⟨hcut, hrest⟩ := Frames.cut_append (n := mBufferSize) (by decide) (handedTo target es)
    packet.bytes
  have hself : handedTo target (es ++ handing (.gather target packet)) =
      handedTo target es ++ packet.bytes := by
    rw [handedTo_append, handedTo_handing, if_pos rfl]
  have hother (i : ℕ) (hi : i ≠ target) :
      handedTo i (es ++ handing (.gather target packet)) = handedTo i es := by
    rw [handedTo_append, handedTo_handing, if_neg (by omega), List.append_nil]
  refine ⟨fun i hi => ?_, fun i => ?_, fun i hi => ?_⟩
  · rw [hserver] at hi ⊢
    by_cases hit : i = target
    · subst hit
      rw [assign_heap, hself, hrest, ← hbuf]
      exact ⟨hg', hbuf'⟩
    · rw [hother i hit, show (s.server.assign target _).heap i = s.server.heap i from
        Function.update_of_ne hit _ _]
      exact h.clients i hi
  · rw [processedOf_append, processedOf_map, h.frames i]
    by_cases hit : i = target
    · subst hit
      rw [if_pos rfl, hself, hcut, List.map_append, hout, hbuf, hn.ids i ht]
      rfl
    · rw [if_neg (Ne.symm hit), hother i hit, List.append_nil]
  · rw [hserver] at hi
    have hi : s.server.allocated ≤ i := hi
    rw [hother i (by omega)]
    exact h.unborn i hi

theorem Framed.step (h : s.Framed es fs) (hi : s.Inv)
    (hshort : ∀ i p, .serving i p ∈ s.tokens → p.length ≤ maxSockRecvBuf)
    (hs : machine.step s a = some (s', out)) : s'.Framed (es ++ out) (fs ++ s.processing a) := by
  have hnil (hl : s.processing a = []) : fs ++ s.processing a = fs := by
    rw [hl, List.append_nil]
  cases effect_of_step hs with
  | complete op result bytes hop hlen =>
    rw [hnil rfl]
    refine h.calm (fun i => ?_) ?_ fun i => ?_
    · split_ifs <;> rfl
    · split_ifs <;> rfl
    · dsimp only
      split_ifs
      · exact deliver_sameReceived s.server op.owner bytes i
      · exact SameReceived.refl _
  | dequeue | begin | acceptLoop | sendLoop | disconnectLoop =>
    rw [hnil rfl]
    exact h.same (fun _ => rfl) rfl
  | push port' e hin hstep =>
    rw [hnil rfl]
    refine h.same (fun i => ?_) rfl
    cases e <;> rfl
  | accept errorCode taken pc hpc =>
    rw [hnil rfl]
    have hadv := acceptStep_advance errorCode hi.sound (hpc ▸ hi.slots)
    exact h.quiet (fun _ => rfl) hadv.allocated
      (fun i hlt => acceptStep_sameReceived s.server errorCode pc hlt)
      fun i hge hlt => acceptStep_added s.server errorCode pc hge hlt
  | send taken pc hpc =>
    rw [hnil rfl]
    have ha : (s.server.sendStep 0 pc).1.allocated = s.server.allocated := by cases pc <;> rfl
    exact h.calm (fun _ => rfl) ha fun i => sendStep_sameReceived s.server pc i
  | receiveLoop taken hpc =>
    rw [hnil (by unfold processing; rw [hpc])]
    exact h.same (fun _ => rfl) rfl
  | receive taken pc hpc =>
    cases pc with
    | gather target packet =>
      have htoken : .serving (target : ℤ) packet.bytes ∈ s.tokens := by
        simp [tokens, hpc, receiveTokens]
      have ht : target < s.server.allocated := (holds_serving_target hi.valid htoken).1
      have hp : s.processing (.receive taken) = (processed ((s.server.heap target).gather
          packet.dataSize (packet.buffer.getD [])).2).map fun p => (target, p) := by
        unfold processing
        rw [hpc]
      rw [hp]
      exact h.gather hi.sound.numbered ht (hshort _ _ htoken) rfl
    | finder packet =>
      rw [hnil (by unfold processing; rw [hpc])]
      exact h.same (fun _ => rfl) rfl
    | ready target pc =>
      rw [hnil (by unfold processing; rw [hpc])]
      exact h.calm (fun _ => rfl) rfl fun i =>
        sameReceived_assign (receiveReadyStep_sameReceived _ pc) i
  | disconnect errorCode taken pc hpc =>
    rw [hnil rfl]
    have ha : (s.server.disconnectStep errorCode pc).1.allocated = s.server.allocated := by
      cases pc <;> rfl
    exact h.calm (fun _ => rfl) ha fun i => disconnectStep_sameReceived s.server errorCode pc i
  | request clientID dataSize messageBuff taken target hf =>
    rw [hnil rfl]
    exact h.calm (fun _ => rfl) rfl fun i =>
      sameReceived_assign (sendRequest_sameReceived _ _ _) i

theorem delivered_short (hs : machine.step s a = some (s', out)) (i : ℤ) :
    (deliveredTo i out).length ≤ maxSockRecvBuf := by
  -- the kernel delivers no more than `mReceiveBuf` holds at a time
  cases effect_of_step hs with
  | complete op result bytes hop hlen =>
    split_ifs with hg
    · simp only [deliveredTo, List.flatMap_singleton]
      split_ifs
      · exact hlen hg.1
      · exact Nat.zero_le _
    · exact Nat.zero_le _
  | push port' e => cases e <;> exact Nat.zero_le _
  | receive taken pc => cases pc <;> exact Nat.zero_le _
  | dequeue | begin | acceptLoop | accept | sendLoop | send | receiveLoop | disconnectLoop
  | disconnect | request => exact Nat.zero_le _

variable {memory : ℕ → ClientDataSet} {buffers : QueueName → ℕ → Packet} {n : ℕ}
  {errorCode : ℤ → ℤ} {taken : ℕ → Bool} {as : List Act}

theorem start_framed : (start memory buffers n errorCode taken).Framed [] [] := by
  have hshort (i : ℤ) : (handedTo i []).length ≤ mBufferSize := Nat.zero_le _
  refine ⟨fun i hi => ?_, fun i => ?_, fun i _ => rfl⟩
  · rw [Frames.rest_of_le (hshort i)]
    exact start_untouched memory n errorCode i hi
  · rw [Frames.cut_of_le (hshort i)]
    rfl

/-- What a run has handed over and processed, and delivered if no push was refused. -/
theorem framed_of_run (ha : ∀ a ∈ as, SendsTransfer a)
    (hr : machine.run (start memory buffers n errorCode taken) as = some (s, es)) :
    s.Inv ∧ (machine.Along (start memory buffers n errorCode taken) as (fun _ s => s.Few) →
      Custody.Ledger (deliveredTo · es) (handedTo · es) s.custody) ∧
      ∃ fs, (machine.observing processing).run (start memory buffers n errorCode taken) as =
        some (s, fs) ∧ s.Framed es fs := by
  refine (machine.run_induction (P := fun bs es s => bs <+: as → s.Inv ∧
    (machine.Along (start memory buffers n errorCode taken) bs (fun _ s => s.Few) →
      Custody.Ledger (deliveredTo · es) (handedTo · es) s.custody) ∧
      (∀ i p, .serving i p ∈ s.tokens → p.length ≤ maxSockRecvBuf) ∧
        ∃ fs, (machine.observing processing).run (start memory buffers n errorCode taken) bs =
          some (s, fs) ∧ s.Framed es fs) ?_ ?_ hr List.prefix_rfl).imp_right
            (And.imp_right And.right)
  · refine fun _ => ⟨start_inv memory buffers n errorCode taken,
      fun _ => start_ledger memory buffers n errorCode taken, fun i p hp => ?_, [], rfl,
      start_framed⟩
    rw [start_tokens, Multiset.mem_coe, List.mem_map] at hp
    obtain ⟨_, -, he⟩ := hp
    cases he
  · intro bs es s a s' out hrun ih hs hb
    have hpre : bs <+: bs ++ [a] := List.prefix_append bs [a]
    obtain ⟨hinv, hledger, hshort, fs, hfs, hframed⟩ := ih (hpre.trans hb)
    obtain ⟨hinv', l, ho⟩ := hinv.step (ha a (hb.subset (by simp))) hs
    have hload : ∀ i p, l = .load i p → p.length ≤ maxSockRecvBuf := by
      rintro i p rfl
      have hdelivered := ho.delivered i
      simp only [Custody.Label.delivered, if_true] at hdelivered
      rw [hdelivered]
      exact delivered_short hs i
    refine ⟨hinv', fun hid => ?_, ho.step.payload_le hshort hload, fs ++ s.processing a, ?_,
      hframed.step hinv hshort hs⟩
    · have hout := hinv.noRefusal (by decide) (by decide) (hid bs es s hpre hrun) hs
      have hledger' := (hledger (hid.take hpre)).step hinv.valid ho.step (ho.payload hout)
      simpa only [ho.delivered, ho.handed, ← deliveredTo_append, ← handedTo_append] using hledger'
    · exact (Machine.run_concat _).mpr
        ⟨s, fs, s.processing a, hfs, Machine.observing_step.mpr ⟨⟨out, hs⟩, rfl⟩, rfl⟩

/-- In every interleaving the packets processed for a client are consecutive frames of the bytes
the kernel delivered to it, and all that is missing are at most `mBufferSize` bytes held back and
one chunk on its way. -/
theorem frames_along (memory : ℕ → ClientDataSet) (buffers : QueueName → ℕ → Packet) (n : ℕ)
    (errorCode : ℤ → ℤ) (taken : ℕ → Bool) (as : List Act) (ha : ∀ a ∈ as, SendsTransfer a)
    (hid : machine.Along (start memory buffers n errorCode taken) as fun _ s => s.Few)
    (hr : machine.run (start memory buffers n errorCode taken) as = some (s, es))
    (hfs : (machine.observing processing).run (start memory buffers n errorCode taken) as =
      some (s, fs)) (i : ℕ) :
    ∃ (frames : List (List UInt8)) (held : List UInt8), processedOf i fs = frames.map (framed i) ∧
      (∀ frame ∈ frames, frame.length = mBufferSize) ∧ held.length ≤ mBufferSize ∧
      (s.unhandled i).length ≤ 1 ∧
      deliveredTo i es = frames.flatten ++ held ++ (s.unhandled i).flatten := by
  obtain ⟨hinv, hledger, fs', hfs', hframed⟩ := framed_of_run ha hr
  obtain ⟨-, rfl⟩ := Prod.mk.inj (Option.some.inj (hfs.symm.trans hfs'))
  refine ⟨Frames.cut mBufferSize (handedTo i es), Frames.rest mBufferSize (handedTo i es),
    hframed.frames i, Frames.length_of_mem_cut (by decide) _, Frames.rest_length_le (by decide) _,
    hinv.unhandled_le_one i, ?_⟩
  rw [Frames.cut_flatten_rest (by decide)]
  exact hinv.delivered_eq (hledger hid) i

/-- The client of the only slot sends twelve bytes, of which ten are processed. -/
def twelveBytes : List Act :=
  oneAccept ++ .complete ⟨0, .receive⟩ true [1, 2, 3, 4, 5, 6, 7, 8, 9, 10, 11, 12] ::
    .dequeue ⟨⟨0, .receive⟩, true, 12⟩ ::
      (List.replicate 5 .process ++ List.replicate 6 (.receive true))

theorem twelveBytes_sends : ∀ a ∈ twelveBytes, SendsTransfer a := by
  intro a ha
  simp only [twelveBytes, oneAccept, List.mem_append, List.mem_cons, List.mem_replicate] at ha
  rcases ha with (rfl | rfl | ⟨-, rfl⟩ | ⟨-, rfl⟩) | rfl | rfl | ⟨-, rfl⟩ | ⟨-, rfl⟩ <;> trivial

theorem frames_along_twelveBytes :
    ((machine.observing processing).run (start (fun _ => default) (fun _ _ => default) 1
      (fun _ => 0) fun _ => true) twelveBytes).map (fun r => processedOf 0 r.2) =
        some [framed 0 [1, 2, 3, 4, 5, 6, 7, 8, 9, 10]] ∧
    ∃ s es fs, machine.run (start (fun _ => default) (fun _ _ => default) 1 (fun _ => 0)
        fun _ => true) twelveBytes = some (s, es) ∧
      ∃ (frames : List (List UInt8)) (held : List UInt8),
        processedOf 0 fs = frames.map (framed (0 : ℕ)) ∧
          (∀ frame ∈ frames, frame.length = mBufferSize) ∧ held.length ≤ mBufferSize ∧
          (s.unhandled (0 : ℕ)).length ≤ 1 ∧
          deliveredTo (0 : ℕ) es = frames.flatten ++ held ++ (s.unhandled (0 : ℕ)).flatten := by
  refine ⟨by decide +kernel, ?_⟩
  have hrun : (machine.run (start (fun _ => default) (fun _ _ => default) 1 (fun _ => 0)
    fun _ => true) twelveBytes).isSome = true := by decide +kernel
  obtain ⟨⟨s, es⟩, hr⟩ := Option.isSome_iff_exists.mp hrun
  have hid : machine.Along (start (fun _ => default) (fun _ _ => default) 1 (fun _ => 0)
      fun _ => true) twelveBytes fun _ s => s.Few :=
    Machine.along_of_inits (by decide +kernel)
  obtain ⟨-, -, fs, hfs, -⟩ := framed_of_run twelveBytes_sends hr
  exact ⟨s, es, fs, hr, frames_along _ _ _ _ _ _ twelveBytes_sends hid hr hfs 0⟩

end EchoSystem

end EchoIocp
