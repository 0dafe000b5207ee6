import EchoIocp.Lib.Frames
import EchoIocp.Session

namespace EchoIocp

open LockFreeCircleQueue

namespace ClientDataSet

variable {c c' : ClientDataSet} {fuel : ℕ} {chunk : List UInt8} {chunks : List (List UInt8)}
  {es out : List Call}

def framed (id : ℤ) (frame : List UInt8) : Option DataPacket := some ⟨id, frame, mBufferSize⟩

def payload (es : List Call) : List UInt8 :=
  (processed es).flatMap fun packet => (packet.map DataPacket.buffer).getD []

/-- The calls of one connection; a `WSARecv` delivers at least one byte and fills at most
`mReceiveBuf`. -/
def receiving : Machine ClientDataSet (List UInt8) Call where
  step c chunk :=
    if 1 ≤ chunk.length ∧ chunk.length ≤ maxSockRecvBuf then
      some (c.feedBackReceive chunk.length chunk)
    else none

/-- A client that was constructed and accepted. -/
def accepted (memory : ClientDataSet) (id : ℤ) (clientSocketPtr : ℕ) : ClientDataSet :=
  ((new memory id clientSocketPtr).feedBackAccept true).1

/-- A call leaves nothing queued and ends with its one `WSARecv`; no push of it is refused. -/
structure Rearms (c : ClientDataSet) (chunk : List UInt8) (c' : ClientDataSet) (out : List Call) :
    Prop where
  pushed : ∀ ok ∈ (cutPackets (c.growBy chunk.length chunk).mReceiveBuffer.length
    (c.growBy chunk.length chunk)).2, ok = true
  drained : c'.mReceiveDataQueue.empty = true
  rearmed : ∃ packets : List (Option DataPacket), out = packets.map .processed ++
    [.wsaRecv c'.mReceiveContext.wsabuf c'.mReceiveContext]

/-- Every packet is a whole frame, and the packets and what is held back are the bytes received. -/
structure Conserves (chunks : List (List UInt8)) (es : List Call) (c : ClientDataSet) : Prop where
  frames : ∀ packet ∈ processed es, ∃ frame, packet = framed c.mID frame ∧
    frame.length = mBufferSize
  bytes : payload es ++ c.mReceiveBuffer = chunks.flatten

/-- A complete frame is not held back. -/
structure Prompt (chunks : List (List UInt8)) (es : List Call) (c : ClientDataSet) : Prop where
  residue : c.mReceiveBuffer.length < mBufferSize
  count : (processed es).length = chunks.flatten.length / mBufferSize

/-- With room for all its packets the loop cuts the buffer into frames. -/
theorem cutPackets_spec (hr : c.mReceiveDataQueue.InRange) (hf : c.mReceiveBuffer.length ≤ fuel)
    (hroom : c.mReceiveDataQueue.contents.length + Frames.count mBufferSize c.mReceiveBuffer <
      maxQueueSize) :
    (cutPackets fuel c).1.mReceiveBuffer = Frames.rest mBufferSize c.mReceiveBuffer ∧
      (cutPackets fuel c).1.mReceiveDataQueue.contents = c.mReceiveDataQueue.contents ++
        (Frames.cut mBufferSize c.mReceiveBuffer).map (framed c.mID) ∧
      ∀ ok ∈ (cutPackets fuel c).2, ok = true := by
  induction fuel generalizing c with
  | zero =>
    have hl : c.mReceiveBuffer.length ≤ mBufferSize := by omega
    rw [Frames.cut_of_le hl, Frames.rest_of_le hl]
    simp [cutPackets]
  | succ fuel ih =>
    simp only [cutPackets]
    split_ifs with hlt
    · have hcount := Frames.count_of_lt (by decide) hlt
      have hpush := push_of_room
        (d := some ⟨c.mID, c.mReceiveBuffer.take mBufferSize, mBufferSize⟩) hr (by omega)
      obtain ⟨hok, hr', hcont⟩ := hpush
      have hdrop : c.cutPacket.1.mReceiveBuffer = c.mReceiveBuffer.drop mBufferSize := rfl
      have hlen : c.cutPacket.1.mReceiveBuffer.length ≤ fuel := by
        have hpos : 0 < mBufferSize := by decide
        rw [hdrop, List.length_drop]
        omega
      have hroom' : c.cutPacket.1.mReceiveDataQueue.contents.length +
          Frames.count mBufferSize c.cutPacket.1.mReceiveBuffer < maxQueueSize := by
        rw [hdrop, show c.cutPacket.1.mReceiveDataQueue.contents = _ from hcont, List.length_append,
          List.length_singleton]
        omega
      obtain ⟨hbuf, hqueue, hresults⟩ := ih (c := c.cutPacket.1) hr' hlen hroom'
      refine ⟨?_, ?_, ?_⟩
      · rw [hbuf, hdrop, ← Frames.rest_of_lt (by decide) hlt]
      · rw [hqueue, hdrop, Frames.cut_of_lt (by decide) hlt,
          show c.cutPacket.1.mReceiveDataQueue.contents = _ from hcont, List.append_assoc]
        rfl
      · intro ok hmem
        rcases List.mem_cons.mp hmem with rfl | hmem
        · exact hok
        · exact hresults ok hmem
    · rw [Frames.cut_of_le (by omega), Frames.rest_of_le (by omega)]
      simp

/-- A connected client between two calls. -/
structure Ready (id : ℤ) (c : ClientDataSet) : Prop where
  connected : c.mIsConnet = true
  id_eq : c.mID = id
  inRange : c.mReceiveDataQueue.InRange
  drained : c.mReceiveDataQueue.contents = []
  residue : c.mReceiveBuffer.length ≤ mBufferSize

variable {id : ℤ}

theorem accepted_ready (memory : ClientDataSet) (id : ℤ) (clientSocketPtr : ℕ) :
    Ready id (accepted memory id clientSocketPtr) :=
  ⟨rfl, rfl, new_inRange _, new_contents _, Nat.zero_le _⟩

theorem growBy_mReceiveBuffer : (c.growBy chunk.length chunk).mReceiveBuffer =
    c.mReceiveBuffer ++ chunk := by
  unfold growBy
  rw [List.take_length]

theorem Ready.room (h : Ready id c) (hc : chunk.length ≤ maxSockRecvBuf) :
    Frames.count mBufferSize (c.growBy chunk.length chunk).mReceiveBuffer < maxQueueSize := by
  -- at most `mBufferSize` bytes held back and a chunk of `MAX_SOCK_RECVBUF` are 26 packets
  have hres := h.residue
  unfold Frames.count
  rw [growBy_mReceiveBuffer, List.length_append]
  simp only [mBufferSize, maxSockRecvBuf, maxQueueSize] at *
  omega

/-- A call cuts the bytes held back and the new ones into frames and processes each. -/
theorem Ready.feedBackReceive (h : Ready id c) (hc : chunk.length ≤ maxSockRecvBuf)
    (hs : c.feedBackReceive chunk.length chunk = (c', out)) :
    Ready id c' ∧ Rearms c chunk c' out ∧
      c'.mReceiveBuffer =
        Frames.rest mBufferSize (c.growBy chunk.length chunk).mReceiveBuffer ∧
      processed out =
        (Frames.cut mBufferSize (c.growBy chunk.length chunk).mReceiveBuffer).map (framed id) := by
  have hempty : (c.growBy chunk.length chunk).mReceiveDataQueue.contents = [] := h.drained
  have hroom : (c.growBy chunk.length chunk).mReceiveDataQueue.contents.length +
      Frames.count mBufferSize (c.growBy chunk.length chunk).mReceiveBuffer < maxQueueSize := by
    have := h.room hc
    rw [hempty, List.length_nil]
    omega
  have hfuel := Nat.le_refl (c.growBy chunk.length chunk).mReceiveBuffer.length
  obtain ⟨hbuf, hqueue, hresults⟩ := cutPackets_spec (c := c.growBy chunk.length chunk)
    h.inRange hfuel hroom
  rw [hempty, List.nil_append] at hqueue
  have hin := cutPackets_inRange (c := c.growBy chunk.length chunk)
    (c.growBy chunk.length chunk).mReceiveBuffer.length h.inRange
  obtain ⟨hr', hdrained, hout⟩ := drain_spec hin (Nat.le_of_lt (length_lt hin))
  -- all of the call but its last `ReceiveReady`
  let g := c.gather chunk.length chunk
  have hg : g.1 = { c with
      mReceiveDataQueue := g.1.mReceiveDataQueue
      mReceiveBuffer := g.1.mReceiveBuffer } := gather_frame
  have hres : g.1.mReceiveBuffer =
      Frames.rest mBufferSize (c.growBy chunk.length chunk).mReceiveBuffer := by
    show (drain maxQueueSize _).1.mReceiveBuffer = _
    rw [drain_frame]
    exact hbuf
  have hconn : g.1.mIsConnet = true := by
    rw [hg]
    exact h.connected
  have hready : g.1.receiveReady = (g.1.fillReceiveContext,
      [.wsaRecv g.1.fillReceiveContext.mReceiveContext.wsabuf
        g.1.fillReceiveContext.mReceiveContext], true) := by
    unfold receiveReady
    simp [hconn]
  have hpackets : g.2 = ((Frames.cut mBufferSize
      (c.growBy chunk.length chunk).mReceiveBuffer).map (framed id)).map .processed := by
    rw [← h.id_eq]
    exact hout.trans (congrArg (List.map Call.processed) hqueue)
  rw [feedBackReceive_eq h.inRange] at hs
  obtain ⟨rfl, rfl⟩ := Prod.mk.inj hs
  rw [show (c.gather chunk.length chunk).1.receiveReady = _ from hready]
  refine ⟨⟨hconn, ?_, hr', hdrained, ?_⟩, ⟨hresults, ?_, ?_⟩, hres, ?_⟩
  · show g.1.mID = id
    rw [hg]
    exact h.id_eq
  · show g.1.mReceiveBuffer.length ≤ mBufferSize
    rw [hres]
    exact Frames.rest_length_le (by decide) _
  · exact (empty_iff hr').mpr hdrained
  · exact ⟨_, congrArg (· ++ _) hpackets⟩
  · show processed (g.2 ++ _) = _
    rw [processed_append, hpackets]
    simp [processed, List.filterMap_map]

variable (memory : ClientDataSet) (clientSocketPtr : ℕ)

/-- The packets and what is held back are those of all bytes received, taken together. -/
theorem received_spec (hr : receiving.run (accepted memory id clientSocketPtr) chunks =
      some (c, es)) : Ready id c ∧
    c.mReceiveBuffer = Frames.rest mBufferSize chunks.flatten ∧
      processed es = (Frames.cut mBufferSize chunks.flatten).map (framed id) := by
  refine receiving.run_induction (P := fun chunks es c => Ready id c ∧
    c.mReceiveBuffer = Frames.rest mBufferSize chunks.flatten ∧
      processed es = (Frames.cut mBufferSize chunks.flatten).map (framed id)) ?_ ?_ hr
  · exact ⟨accepted_ready memory id clientSocketPtr, rfl, rfl⟩
  · rintro chunks es c chunk c' out - ⟨hc, hbuf, hpackets⟩ hs
    unfold receiving at hs
    simp only at hs
    split_ifs at hs with hlen
    obtain ⟨hc', -, hbuf', hout⟩ := hc.feedBackReceive hlen.2 (Option.some.inj hs)
    obtain ⟨hcut, hrest⟩ := Frames.cut_append (n := mBufferSize) (by decide) chunks.flatten chunk
    have hflat : (chunks ++ [chunk]).flatten = chunks.flatten ++ chunk := by simp
    refine ⟨hc', ?_, ?_⟩
    · rw [hbuf', growBy_mReceiveBuffer, hbuf, hflat, hrest]
    · rw [processed_append, hpackets, hout, growBy_mReceiveBuffer, hbuf, hflat, hcut,
        List.map_append]

/-- A connection takes chunks of any lengths up to `MAX_SOCK_RECVBUF`. -/
theorem receiving_total (hc : ∀ chunk ∈ chunks, 1 ≤ chunk.length ∧ chunk.length ≤ maxSockRecvBuf)
    (c : ClientDataSet) : ∃ p, receiving.run c chunks = some p := by
  induction chunks generalizing c with
  | nil => exact ⟨_, rfl⟩
  | cons chunk chunks ih =>
    obtain ⟨p, hp⟩ := ih (fun chunk' h => hc chunk' (List.mem_cons_of_mem _ h))
      (c.feedBackReceive chunk.length chunk).1
    have hs : receiving.step c chunk = some (c.feedBackReceive chunk.length chunk) :=
      if_pos (hc chunk (by simp))
    exact ⟨(p.1, (c.feedBackReceive chunk.length chunk).2 ++ p.2),
      (Machine.run_cons _).mpr ⟨_, _, _, hs, hp, rfl⟩⟩

theorem payload_eq (he : processed es = (Frames.cut mBufferSize chunks.flatten).map (framed id)) :
    payload es = (Frames.cut mBufferSize chunks.flatten).flatten := by
  unfold payload
  rw [he, List.flatMap_map]
  exact List.flatMap_id'

theorem received_conserves (hr : receiving.run (accepted memory id clientSocketPtr) chunks =
    some (c, es)) : Conserves chunks es c := by
  obtain ⟨hc, hbuf, hpackets⟩ := received_spec memory clientSocketPtr hr
  constructor
  · intro packet hmem
    rw [hpackets] at hmem
    obtain ⟨frame, hframe, rfl⟩ := List.mem_map.mp hmem
    have hlen := Frames.length_of_mem_cut (by decide) chunks.flatten frame hframe
    exact ⟨frame, by rw [hc.id_eq], hlen⟩
  · rw [payload_eq hpackets, hbuf]
    exact Frames.cut_flatten_rest (by decide) _

/-- Receiving loses nothing, rearms once a call, and cuts the bytes the same way however they were
split into chunks. -/
theorem framing_spec (memory : ClientDataSet) (id : ℤ) (clientSocketPtr : ℕ)
    (chunks : List (List UInt8))
    (hc : ∀ chunk ∈ chunks, 1 ≤ chunk.length ∧ chunk.length ≤ maxSockRecvBuf) :
    ∃ c es, receiving.run (accepted memory id clientSocketPtr) chunks = some (c, es) ∧
      Conserves chunks es c ∧
      (∀ before chunk, before ++ [chunk] <+: chunks → ∀ c₁ es₁ c₂ out,
        receiving.run (accepted memory id clientSocketPtr) before = some (c₁, es₁) →
        receiving.step c₁ chunk = some (c₂, out) → Rearms c₁ chunk c₂ out) ∧
      ∀ memory' clientSocketPtr' chunks' c' es',
        receiving.run (accepted memory' id clientSocketPtr') chunks' = some (c', es') →
        chunks'.flatten = chunks.flatten → processed es' = processed es := by
  obtain ⟨⟨c, es⟩, hr⟩ := receiving_total hc (accepted memory id clientSocketPtr)
  refine ⟨c, es, hr, received_conserves memory clientSocketPtr hr, ?_, ?_⟩
  · intro before chunk hp c₁ es₁ c₂ out hrun hs
    obtain ⟨hready, -, -⟩ := received_spec memory clientSocketPtr hrun
    have hmem : chunk ∈ chunks := hp.subset (by simp)
    unfold receiving at hs
    simp only [if_pos (hc chunk hmem)] at hs
    exact (hready.feedBackReceive (hc chunk hmem).2 (Option.some.inj hs)).2.1
  · intro memory' clientSocketPtr' chunks' c' es' hr' hflat
    obtain ⟨-, -, hpackets⟩ := received_spec memory clientSocketPtr hr
    obtain ⟨-, -, hpackets'⟩ := received_spec memory' clientSocketPtr' hr'
    rw [hpackets, hpackets', hflat]

/-- Twelve bytes in two chunks: one packet, and two bytes that wait. -/
theorem framing_spec_twelve :
    ∃ c es, receiving.run (accepted default 0 0) [[1, 2, 3, 4, 5, 6, 7], [8, 9, 10, 11, 12]] =
        some (c, es) ∧
      processed es = [some ⟨0, [1, 2, 3, 4, 5, 6, 7, 8, 9, 10], mBufferSize⟩] ∧
      c.mReceiveBuffer = [11, 12] ∧
      Conserves [[1, 2, 3, 4, 5, 6, 7], [8, 9, 10, 11, 12]] es c := by
  obtain ⟨c, es, hr, hcons, -, -⟩ := framing_spec default 0 0
    [[1, 2, 3, 4, 5, 6, 7], [8, 9, 10, 11, 12]] (by decide)
  have hvalue : (receiving.run (accepted default 0 0)
      [[1, 2, 3, 4, 5, 6, 7], [8, 9, 10, 11, 12]]).map
        (fun r => (processed r.2, r.1.mReceiveBuffer)) =
      some ([some ⟨0, [1, 2, 3, 4, 5, 6, 7, 8, 9, 10], mBufferSize⟩], [11, 12]) := by decide
  rw [hr] at hvalue
  obtain ⟨hprocessed, hresidue⟩ := Prod.mk.inj (Option.some.inj hvalue)
  exact ⟨c, es, hr, hprocessed, hresidue, hcons⟩

theorem prompt_iff_residue (hr : receiving.run (accepted memory id clientSocketPtr) chunks =
    some (c, es)) (hne : chunks.flatten ≠ []) :
    Prompt chunks es c ↔ chunks.flatten.length % mBufferSize ≠ 0 := by
  obtain ⟨-, hbuf, hpackets⟩ := received_spec memory clientSocketPtr hr
  rw [← Frames.rest_length_lt_iff (by decide) hne]
  constructor
  · intro h
    have hres := h.residue
    rwa [hbuf] at hres
  · intro h
    refine ⟨by rwa [hbuf], ?_⟩
    rw [hpackets, List.length_map, Frames.cut_length]
    exact Frames.count_eq_div (by decide) h

/-- After every call all complete frames are processed exactly when no call brings the bytes
received to a multiple of `mBufferSize`. -/
theorem prompt_along_iff (memory : ClientDataSet) (id : ℤ) (clientSocketPtr : ℕ)
    (chunks : List (List UInt8))
    (hc : ∀ chunk ∈ chunks, 1 ≤ chunk.length ∧ chunk.length ≤ maxSockRecvBuf) :
    (∀ before, before <+: chunks → before ≠ [] → ∀ c es,
      receiving.run (accepted memory id clientSocketPtr) before = some (c, es) →
      Prompt before es c) ↔
      ∀ before, before <+: chunks → before ≠ [] → before.flatten.length % mBufferSize ≠ 0 := by
  have hbytes (before : List (List UInt8)) (hp : before <+: chunks) (hne : before ≠ []) :
      before.flatten ≠ [] := by
    obtain ⟨chunk, rest, rfl⟩ := List.exists_cons_of_ne_nil hne
    have hlen := (hc chunk (hp.subset (by simp))).1
    intro hnil
    have hchunk : chunk = [] := List.flatten_eq_nil_iff.mp hnil chunk (by simp)
    simp [hchunk] at hlen
  constructor
  · intro h before hp hne
    obtain ⟨⟨c, es⟩, hr⟩ := receiving_total (fun chunk hmem => hc chunk (hp.subset hmem))
      (accepted memory id clientSocketPtr)
    exact (prompt_iff_residue memory clientSocketPtr hr (hbytes before hp hne)).mp
      (h before hp hne c es hr)
  · intro h before hp hne c es hr
    exact (prompt_iff_residue memory clientSocketPtr hr (hbytes before hp hne)).mpr
      (h before hp hne)

theorem prompt_along_iff_twelve :
    (∀ before, before <+: [[1, 2, 3, 4, 5, 6, 7], [8, 9, 10, 11, 12]] → before ≠ [] →
      ∀ c es, receiving.run (accepted default 0 0) before = some (c, es) → Prompt before es c) ↔
      ∀ before : List (List UInt8), before <+: [[1, 2, 3, 4, 5, 6, 7], [8, 9, 10, 11, 12]] →
        before ≠ [] → before.flatten.length % mBufferSize ≠ 0 :=
  prompt_along_iff default 0 0 [[1, 2, 3, 4, 5, 6, 7], [8, 9, 10, 11, 12]] (by decide)

/-- Exactly one frame arrives, and nothing is processed. -/
theorem whole_frame_held_back :
    ∃ c es, receiving.run (accepted default 0 0) [[1, 2, 3, 4, 5, 6, 7, 8, 9, 10]] =
        some (c, es) ∧
      c.mReceiveBuffer.length = mBufferSize ∧ processed es = [] ∧
      ¬ Prompt [[1, 2, 3, 4, 5, 6, 7, 8, 9, 10]] es c := by
  refine ⟨_, _, rfl, rfl, rfl, fun h => ?_⟩
  exact absurd h.residue (by decide)

end ClientDataSet

end EchoIocp
