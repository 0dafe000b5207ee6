import EchoIocp.EchoSystem
import EchoIocp.Slots
import Mathlib.Tactic.Abel

namespace EchoIocp

open LockFreeCircleQueue ClientDataSet EchoSystem
open Custody (Moves)

namespace EchoServer

variable {s s' : EchoServer} {target : ℕ} {id : ℤ} {tokens tokens' rest : Multiset ClientToken}

/-- What a step posted, if the kernel took it. -/
def postedTokens (taken : Bool) (ops : List Posted) : Multiset ClientToken :=
  total Posted.tokens (if taken then ops else [])

@[simp] theorem postedTokens_nil {taken : Bool} : postedTokens taken [] = 0 := by
  cases taken <;> rfl

theorem Still.custody (h : Still s s') :
    (s'.custody tokens').members = (s.custody tokens).members ∧
      (s'.custody tokens').joined = (s.custody tokens).joined := by
  simp only [EchoServer.custody, h.allocated, h.connected, and_self]

theorem Still.untried (h : Still s s') (ids : List ℤ) : s'.untried ids = s.untried ids := by
  simp only [EchoServer.untried, h.connected]

theorem Calm.stay {P : Prop} (h : Calm s s') (ht : tokens' = tokens) :
    Moves (s.custody tokens) (s'.custody tokens') P := .stay ht h.custody.1 h.custody.2

theorem Calm.shed {P : Prop} (h : Calm s s') (lost : Multiset ClientToken)
    (ht : tokens = lost + tokens') (hl : ∀ i p, .serving i p ∈ lost → p = [])
    (hP : P → lost = 0) : Moves (s.custody tokens) (s'.custody tokens') P :=
  .shed lost ht h.custody.1 h.custody.2 hl hP

@[simp] theorem untried_nil : s.untried [] = 0 := rfl

theorem untried_cons (ids : List ℤ) : s.untried (id :: ids) =
    (if s.connected id.toNat then 0 else {.waiting id}) + s.untried ids := total_cons

theorem Still.acceptTokens (h : Still s s') (a : Option AcceptPc) :
    s'.acceptTokens a = s.acceptTokens a := by
  rcases a with _ | pc
  · rfl
  cases pc with
  | prepare pc =>
    cases pc with
    | create currentId limit =>
      simp only [EchoServer.acceptTokens, prepareTokens, h.untried, h.keys]
    | next currentId rest => exact h.untried rest
    | tryAccept currentId target pc rest =>
      cases pc <;> simp only [EchoServer.acceptTokens, prepareTokens, h.untried]
    | loadId | storeId | loadMax | storeMax => rfl
  | finder | feedBack | ready | loadCount | storeCount | loadMax | isEmpty => rfl

theorem untried_of_connected {ids : List ℤ} (h : ∀ id ∈ ids, s.connected id.toNat = true) :
    s.untried ids = 0 := by
  induction ids with
  | nil => rfl
  | cons id ids ih =>
    rw [untried_cons, if_pos (h id (by simp)), zero_add]
    exact ih fun id' h' => h id' (List.mem_cons_of_mem _ h')

theorem untried_full (hn : s.Numbered) (hf : s.Full) : s.untried s.keys = 0 := by
  apply untried_of_connected
  intro id hid
  rw [hn.keys_eq, List.mem_map] at hid
  obtain ⟨i, hi, rfl⟩ := hid
  exact hf i (List.mem_range.mp hi)

theorem untried_createClient (hn : s.Numbered) :
    (s.createClient s.allocated).untried (s.createClient s.allocated).keys =
      {.waiting (s.allocated : ℤ)} + s.untried s.keys := by
  have hkeys : (s.createClient s.allocated).keys = s.keys ++ [(s.allocated : ℤ)] := by
    rw [hn.createClient.keys_eq, hn.keys_eq]
    show (List.range (s.allocated + 1)).map _ = _
    rw [List.range_succ, List.map_append]
    rfl
  have hold : (s.createClient s.allocated).untried s.keys = s.untried s.keys := by
    apply total_congr
    intro id hid
    rw [hn.keys_eq, List.mem_map] at hid
    obtain ⟨i, hi, rfl⟩ := hid
    have hlt := List.mem_range.mp hi
    simp only [Int.toNat_natCast, createClient_connected, if_neg hlt.ne]
  unfold untried at hold ⊢
  rw [hkeys, total_append, hold, total_cons, total_nil, add_zero, add_comm]
  simp

/-- The token goes from the hands of a thread to the kernel, or is lost. -/
theorem Calm.post (h : Calm s s') (op : Posted) (taken : Bool) (rest : Multiset ClientToken)
    (hp : ∀ i p, .serving i p ∈ op.tokens → p = []) :
    Moves (s.custody (op.tokens + rest)) (s'.custody (postedTokens taken [op] + rest))
      (taken = true) := by
  cases taken with
  | true =>
    apply h.stay
    simp [postedTokens]
  | false =>
    apply h.shed op.tokens
    · simp [postedTokens]
    · exact hp
    · simp

theorem holds_waiting (h : (s.custody tokens).Valid) (ht : .waiting id ∈ tokens) :
    ∃ i < s.allocated, (i : ℤ) = id ∧ s.connected i = false := by
  obtain ⟨⟨i, hi, rfl⟩, hj⟩ := h.waiting id ht
  refine ⟨i, hi, rfl, ?_⟩
  rw [← Bool.not_eq_true]
  exact fun hc => hj ⟨i, hi, hc, rfl⟩

theorem holds_serving {p : List UInt8} (h : (s.custody tokens).Valid)
    (ht : .serving id p ∈ tokens) : ∃ i < s.allocated, (i : ℤ) = id ∧ s.connected i = true := by
  obtain ⟨i, hi, hc, rfl⟩ := h.serving id p ht
  exact ⟨i, hi, rfl, hc⟩

theorem holds_waiting_target (h : (s.custody tokens).Valid) (ht : .waiting (target : ℤ) ∈ tokens) :
    target < s.allocated ∧ s.connected target = false := by
  obtain ⟨i, hi, he, hc⟩ := holds_waiting h ht
  obtain rfl := Int.ofNat_inj.mp he
  exact ⟨hi, hc⟩

theorem holds_serving_target {p : List UInt8} (h : (s.custody tokens).Valid)
    (ht : .serving (target : ℤ) p ∈ tokens) :
    target < s.allocated ∧ s.connected target = true := by
  obtain ⟨i, hi, he, hc⟩ := holds_serving h ht
  obtain rfl := Int.ofNat_inj.mp he
  exact ⟨hi, hc⟩

theorem createClient_custody (s : EchoServer) (tokens tokens' : Multiset ClientToken) :
    ((s.createClient s.allocated).custody tokens').members =
        insert (s.allocated : ℤ) (s.custody tokens).members ∧
      ((s.createClient s.allocated).custody tokens').joined = (s.custody tokens).joined := by
  have ha : (s.createClient s.allocated).allocated = s.allocated + 1 := rfl
  constructor
  · ext id
    simp only [custody, ha, Set.mem_ofPred_eq, Set.mem_insert_iff]
    constructor
    · rintro ⟨i, hi, rfl⟩
      rcases Nat.lt_succ_iff_lt_or_eq.mp hi with hi | rfl
      · exact .inr ⟨i, hi, rfl⟩
      · exact .inl rfl
    · rintro (rfl | ⟨i, hi, rfl⟩)
      · exact ⟨s.allocated, Nat.lt_succ_self _, rfl⟩
      · exact ⟨i, Nat.lt_succ_of_lt hi, rfl⟩
  · ext id
    simp only [custody, ha, Set.mem_ofPred_eq, createClient_connected]
    constructor
    · rintro ⟨i, hi, hc, rfl⟩
      by_cases hn : i = s.allocated
      · simp [hn] at hc
      · rw [if_neg hn] at hc
        exact ⟨i, by omega, hc, rfl⟩
    · rintro ⟨i, hi, hc, rfl⟩
      refine ⟨i, Nat.lt_succ_of_lt hi, ?_, rfl⟩
      rw [if_neg hi.ne]
      exact hc

theorem feedBack_custody (ht : target < s.allocated) :
    ((s.assign target ((s.heap target).setConnet true)).custody tokens').joined =
      insert (target : ℤ) (s.custody tokens).joined := by
  ext id
  show (∃ i < s.allocated, _ ∧ _) ↔ _
  simp only [custody, Set.mem_ofPred_eq, Set.mem_insert_iff, assign_connected]
  constructor
  · rintro ⟨i, hi, hc, rfl⟩
    by_cases hn : i = target
    · exact .inl (congrArg _ hn)
    · rw [if_neg hn] at hc
      exact .inr ⟨i, hi, hc, rfl⟩
  · rintro (rfl | ⟨i, hi, hc, rfl⟩)
    · exact ⟨target, ht, by rw [if_pos rfl]; rfl, rfl⟩
    · refine ⟨i, hi, ?_, rfl⟩
      split_ifs
      · rfl
      · exact hc

/-- `getsockopt` finds no error on a socket that `TryAccept` is to arm. -/
def SocketOk (s : EchoServer) (errorCode : ℤ) : Option AcceptPc → Prop
  | some (.prepare (.tryAccept _ target .guard _)) => s.connected target = false → errorCode = 0
  | _ => True

theorem prepareStep_custody {pc : PreparePc} (errorCode : ℤ) (taken : Bool) (hs : s.Sound)
    (hk : s.SlotsOk (some (.prepare pc))) (rest : Multiset ClientToken) :
    Moves (s.custody (s.prepareTokens pc + rest))
      ((s.prepareStep clientIncrease errorCode pc).1.custody
        ((s.prepareStep clientIncrease errorCode pc).1.acceptTokens
            ((s.prepareStep clientIncrease errorCode pc).2.1.map .prepare) +
          (postedTokens taken (s.prepareStep clientIncrease errorCode pc).2.2 + rest)))
      (s.SocketOk errorCode (some (.prepare pc)) ∧ taken = true) := by
  have hrefl := Calm.refl s
  cases pc with
  | loadId =>
    apply hrefl.stay
    simp [prepareStep, acceptTokens, prepareTokens, untried_full hs.numbered hk.2]
  | create currentId limit =>
    obtain ⟨rfl, -⟩ := hk
    simp only [prepareStep]
    -- the new slot enters with its token, since the second loop is going to arm it
    split_ifs
    · obtain ⟨hm, hj⟩ := createClient_custody s _ _
      refine Moves.enter (s.allocated : ℤ) ?_ ?_ hm hj
      · rintro ⟨i, hi, he⟩
        exact hi.ne (Int.ofNat_inj.mp he)
      · show acceptTokens _ _ + _ = _ + (_ + _)
        simp only [Option.map_some, acceptTokens, prepareTokens, postedTokens_nil, zero_add]
        rw [untried_createClient hs.numbered, add_assoc]
    · apply hrefl.stay
      simp [acceptTokens, prepareTokens]
  | next currentId rest =>
    cases rest with
    | nil =>
      apply hrefl.stay
      simp [prepareStep, acceptTokens, prepareTokens]
    | cons id rest =>
      obtain ⟨i, hi, rfl⟩ := hk.2 id (by simp)
      have hf : s.clientFinder i = some i := hs.numbered.finder.mpr ⟨rfl, hi⟩
      simp only [prepareStep, hf]
      apply hrefl.stay
      simp [acceptTokens, prepareTokens]
  | tryAccept currentId target pc ids =>
    have hcalm := Calm.assign (tryAcceptStep_kept (s.heap target) errorCode pc)
    have hunt := hcalm.untried ids
    cases pc with
    | guard =>
      have hguard : s.untried (target :: ids) =
          (if (s.heap target).mIsConnet then 0 else {.waiting (target : ℤ)}) + s.untried ids := by
        rw [untried_cons, Int.toNat_natCast]
        rfl
      simp only [prepareStep, tryAcceptStep]
      -- a slot found connected has no token here; one with a socket error loses it
      split_ifs with hc he
      · simp only [if_pos hc] at hguard
        apply (Calm.assign (Kept.refl _)).stay
        simp [acceptTokens, prepareTokens, hguard]
      · simp only [if_neg hc] at hguard
        apply (Calm.assign (Kept.refl _)).shed {.waiting (target : ℤ)}
        · simp [acceptTokens, prepareTokens, hguard]
        · simp
        · exact fun h => absurd (h.1 (Bool.eq_false_of_not_eq_true hc)) he
      · simp only [if_neg hc] at hguard
        apply (Calm.assign (Kept.refl _)).stay
        simp [acceptTokens, prepareTokens, hguard]
    | fill =>
      apply hcalm.stay
      simp only [tryAcceptStep] at hunt
      simp [prepareStep, tryAcceptStep, acceptTokens, prepareTokens, hunt]
    | post =>
      have hpost := hcalm.post ⟨target, .accept⟩ taken (s.untried ids + rest)
        (by simp [Posted.tokens])
      simp only [prepareStep, tryAcceptStep, acceptTokens, prepareTokens, Option.map_some, posted,
        List.filterMap_cons, List.filterMap_nil, assign_self, Posted.tokens] at hpost ⊢
      rw [add_assoc, add_left_comm (s.untried ids)]
      exact hpost.imp And.right
  | storeId | loadMax | storeMax =>
    apply Moves.stay <;> simp [prepareStep, acceptTokens, prepareTokens, EchoServer.custody] <;> rfl

/-- An accept makes the slot serve its client; what is not taken or cannot be armed is lost. -/
theorem acceptStep_custody {pc : AcceptPc} (errorCode : ℤ) (taken : Bool) (hs : s.Sound)
    (hk : s.SlotsOk (some pc)) (hh : s.HoldsAccept pc) (rest : Multiset ClientToken) :
    Moves (s.custody (s.acceptTokens (some pc) + rest))
      ((s.acceptStep errorCode pc).1.custody
        ((s.acceptStep errorCode pc).1.acceptTokens (s.acceptStep errorCode pc).2.1 +
          (postedTokens taken (s.acceptStep errorCode pc).2.2 + rest)))
      (s.SocketOk errorCode (some pc) ∧ taken = true) := by
  have hrefl := Calm.refl s
  cases pc with
  | finder id =>
    obtain ⟨i, hi, rfl, -⟩ := hh
    have hf : s.clientFinder i = some i := hs.numbered.finder.mpr ⟨rfl, hi⟩
    simp only [acceptStep, hf]
    apply hrefl.stay
    simp [acceptTokens]
  -- the token goes over from waiting to serving when `mIsConnet` is set
  | feedBack target =>
    refine Moves.join (target : ℤ) rfl ?_ rfl (feedBack_custody hh.1)
    show acceptTokens _ _ + (postedTokens taken [] + rest) = _
    rw [postedTokens_nil, zero_add]
    rfl
  | ready target pc =>
    have hcalm := Calm.assign (receiveReadyStep_kept (s.heap target) pc)
    cases pc with
    | guard =>
      have hc : (s.heap target).mIsConnet = true := hh.2
      simp only [acceptStep, receiveReadyStep, hc, Bool.not_true, Bool.false_eq_true, if_false]
      apply (Calm.assign (Kept.refl _)).stay
      simp [acceptTokens]
    | fill =>
      apply hcalm.stay
      simp [acceptStep, receiveReadyStep, acceptTokens]
    | post =>
      have hpost := hcalm.post ⟨target, .receive⟩ taken rest (by simp [Posted.tokens])
      simp only [acceptStep, receiveReadyStep, acceptTokens, posted, List.filterMap_cons,
        List.filterMap_nil, assign_self, Posted.tokens] at hpost ⊢
      rw [zero_add]
      exact hpost.imp And.right
  | loadCount | loadMax =>
    apply hrefl.stay
    simp [acceptStep, acceptTokens]
  | storeCount v =>
    apply Moves.stay
    · simp [acceptStep, acceptTokens, EchoServer.custody]
    · rfl
    · rfl
  | isEmpty currentMax =>
    simp only [acceptStep]
    split_ifs
    · apply hrefl.stay
      simp [acceptTokens, prepareTokens]
    · apply hrefl.stay
      simp [acceptTokens]
  | prepare pc => exact prepareStep_custody errorCode taken hs hk rest

/-- What the token in the hands of the receive thread tells of its client. -/
def HoldsReceive (s : EchoServer) : ReceivePc → Prop
  | .finder packet => ∃ i < s.allocated, (i : ℤ) = packet.clientID
  | .gather _ _ => True
  | .ready target _ => target < s.allocated ∧ s.connected target = true

theorem receiveStep_custody {pc : ReceivePc} (errorCode : ℤ) (taken : Bool) (hs : s.Sound)
    (hh : s.HoldsReceive pc) (rest : Multiset ClientToken) :
    (∃ target packet, pc = .gather target packet ∧
      Custody.Step (s.custody (receiveTokens (some pc) + rest))
        ((s.receiveStep errorCode pc).1.custody
          (receiveTokens (s.receiveStep errorCode pc).2.1 +
            (postedTokens taken (s.receiveStep errorCode pc).2.2 + rest)))
        (.unload target packet.bytes)) ∨
    (∀ target packet, pc ≠ .gather target packet) ∧
      Moves (s.custody (receiveTokens (some pc) + rest))
        ((s.receiveStep errorCode pc).1.custody
          (receiveTokens (s.receiveStep errorCode pc).2.1 +
            (postedTokens taken (s.receiveStep errorCode pc).2.2 + rest))) (taken = true) := by
  have hcalm := receiveStep_calm s errorCode pc
  cases pc with
  | finder packet =>
    obtain ⟨i, hi, he⟩ := hh
    have hf : s.clientFinder packet.clientID = some i := hs.numbered.finder.mpr ⟨he.symm, hi⟩
    refine .inr ⟨by simp, ?_⟩
    simp only [receiveStep, hf]
    apply (Calm.refl s).stay
    simp [receiveTokens, he]
  | gather target packet =>
    refine .inl ⟨target, packet, rfl, .unload _ _ rest rfl ?_ hcalm.custody.1 hcalm.custody.2⟩
    simp only [receiveStep, gather_posted, postedTokens_nil, zero_add]
    rfl
  | ready target pc =>
    refine .inr ⟨by simp, ?_⟩
    cases pc with
    | guard =>
      have hc : (s.heap target).mIsConnet = true := hh.2
      simp only [receiveStep, receiveReadyStep, hc, Bool.not_true, Bool.false_eq_true, if_false]
      apply (Calm.assign (Kept.refl _)).stay
      simp [receiveTokens]
    | fill =>
      apply hcalm.stay
      simp [receiveStep, receiveReadyStep, receiveTokens]
    | post =>
      have hpost := hcalm.post ⟨target, .receive⟩ taken rest (by simp [Posted.tokens])
      simp only [receiveStep, receiveReadyStep, receiveTokens, Option.map_none, posted,
        List.filterMap_cons, List.filterMap_nil, assign_self, Posted.tokens] at hpost ⊢
      rw [zero_add]
      exact hpost

theorem disconnectStep_custody {pc : DisconnectPc} (errorCode : ℤ) (taken : Bool)
    (hcalm : Calm s (s.disconnectStep errorCode pc).1)
    (hpost : (s.disconnectStep errorCode pc).2.2 = []) (rest : Multiset ClientToken) :
    Moves (s.custody (disconnectTokens (some pc) + rest))
      ((s.disconnectStep errorCode pc).1.custody
        (disconnectTokens (s.disconnectStep errorCode pc).2.1 +
          (postedTokens taken (s.disconnectStep errorCode pc).2.2 + rest)))
      (∀ id, pc ≠ .finder id) := by
  rw [hpost, postedTokens_nil, zero_add]
  have hnone : disconnectTokens (s.disconnectStep errorCode pc).2.1 = 0 := by
    cases pc with
    | finder id =>
      simp only [disconnectStep]
      cases s.clientFinder id <;> rfl
    | loadCount | storeCount => rfl
    | tryAccept target pc =>
      simp only [disconnectStep]
      cases ((s.heap target).tryAcceptStep errorCode pc).2.1 <;> rfl
  rw [hnone, zero_add]
  cases pc with
  -- found or not, nothing arms the slot again
  | finder id =>
    apply hcalm.shed {.serving id []} rfl
    · simp
    · exact fun h => absurd rfl (h id)
  | loadCount | storeCount | tryAccept =>
    apply hcalm.stay
    simp [disconnectTokens]

end EchoServer

namespace IOCompletionPort

variable {port port' : IOCompletionPort} {name : QueueName}

def dispatchTokens (c : Completion) : Multiset ClientToken :=
  (dispatch c).elim 0 fun r => r.2.tokens r.1

/-- The token of a packet that a full queue refused. -/
def refusedTokens (out : Option Pushed) : Multiset ClientToken :=
  out.elim 0 fun p => if p.accepted then 0 else p.packet.tokens p.name

def calledTokens (name : QueueName) (e : Option (WorkerEvent Packet)) : Multiset ClientToken :=
  (called e).elim 0 fun packet => packet.tokens name

theorem tokens_congr (h : ∀ name, port'.transit name = port.transit name) :
    port'.tokens = port.tokens := by simp only [tokens, h]

theorem tokens_of_transit (name : QueueName) {packet : Packet}
    (ht : (port.transit name).Perm (packet :: port'.transit name))
    (ho : ∀ other, name ≠ other → port'.transit other = port.transit other) :
    port.tokens = packet.tokens name + port'.tokens := by
  have hsum (f : Packet → Multiset ClientToken) :
      total f (port.transit name) = f packet + total f (port'.transit name) := by
    rw [← total_cons]
    exact (ht.map f).sum_eq
  unfold tokens
  cases name with
  | acceptQueue =>
    rw [hsum, ho .receiveQueue (by simp), ho .disconnectQueue (by simp)]
    abel
  | receiveQueue =>
    rw [hsum, ho .acceptQueue (by simp), ho .disconnectQueue (by simp)]
    abel
  | disconnectQueue =>
    rw [hsum, ho .acceptQueue (by simp), ho .receiveQueue (by simp)]
    abel
  | sendQueue =>
    rw [ho .acceptQueue (by simp), ho .receiveQueue (by simp), ho .disconnectQueue (by simp)]
    exact (zero_add _).symm

theorem begin_tokens (h : port.Shared) (hidle : port.process = none) (c : Completion) :
    (port.begin c).tokens = dispatchTokens c + port.tokens := by
  have htransit := (begin_spec h hidle c).2
  unfold dispatchTokens
  cases hd : dispatch c with
  | none =>
    rw [Option.elim_none, zero_add]
    apply tokens_congr
    intro name
    rw [htransit, dispatchTo, hd, Option.bind_none, Option.toList_none, List.append_nil]
  | some r =>
    obtain ⟨name, packet⟩ := r
    rw [Option.elim_some]
    apply tokens_of_transit name
    · rw [htransit]
      simp [dispatchTo, hd]
    · intro other hn
      rw [htransit]
      simp [dispatchTo, hd, hn]

theorem PushEffect.tokens {out : Option Pushed} (h : PushEffect port port' out) :
    port.tokens = refusedTokens out + port'.tokens := by
  cases h with
  | going name pc hp ht => simpa [refusedTokens] using (tokens_congr ht).symm
  | accepted name packet hp ht => simpa [refusedTokens] using (tokens_congr ht).symm
  | refused name packet hp hfull hlost ht =>
    apply tokens_of_transit name
    · rw [hlost]
      exact List.perm_append_singleton _ _
    · exact ht

theorem WorkEffect.tokens {e : Option (WorkerEvent Packet)} (h : WorkEffect port port' name e) :
    port.tokens = calledTokens name e + port'.tokens := by
  cases h with
  | quiet hl hc ht => simpa [calledTokens, called] using (tokens_congr ht).symm
  | popped d hc ht => simpa [calledTokens, called] using (tokens_congr ht).symm
  | fronted d hc ht ho =>
    apply tokens_of_transit name
    · rw [ht]
    · exact ho

end IOCompletionPort

namespace EchoServer

variable {s : EchoServer} {c : Completed}

/-- `Process` dispatches every successful completion, and of the failed ones those that read no
bytes and are not of an accept. -/
theorem completed_tokens (ha : s.Armed c.op)
    (hsend : ∀ context, c.op.overlapped = .send context → c.bytesTransferred ≠ 0) :
    ∃ lost, c.tokens s = lost + IOCompletionPort.dispatchTokens (s.completion c) ∧
      (∀ i p, .serving i p ∈ lost → p = []) ∧
      (((∀ context, c.op.overlapped ≠ .send context) → c.result = true) → lost = 0) ∧
      (c.op.overlapped = .accept → c.result = false → lost = {.waiting (c.op.owner : ℤ)}) := by
  obtain ⟨⟨owner, overlapped⟩, result, bytesTransferred⟩ := c
  obtain ⟨-, hcontext⟩ := ha
  cases overlapped with
  | accept =>
    have hc : (s.heap owner).mAcceptContext = acceptContext owner := hcontext
    cases result with
    | true =>
      refine ⟨0, ?_, by simp, by simp, by simp⟩
      simp [Completed.tokens, IOCompletionPort.dispatchTokens, dispatch, completion, context, hc,
        acceptContext, Packet.tokens, Packet.set]
    | false =>
      refine ⟨{.waiting (owner : ℤ)}, ?_, by simp, by simp, by simp⟩
      simp [Completed.tokens, IOCompletionPort.dispatchTokens, dispatch, completion, context, hc,
        acceptContext]
  | receive =>
    have hc : (s.heap owner).mReceiveContext = receiveContext owner := hcontext
    by_cases hb : bytesTransferred = 0
    · refine ⟨0, ?_, by simp, by simp, by simp⟩
      cases result <;>
        simp [Completed.tokens, IOCompletionPort.dispatchTokens, dispatch, completion, context, hc,
          receiveContext, Packet.tokens, Packet.set, hb]
    · cases result with
      | true =>
        refine ⟨0, ?_, by simp, by simp, by simp⟩
        simp [Completed.tokens, IOCompletionPort.dispatchTokens, dispatch, completion, context, hc,
          receiveContext, Packet.tokens, Packet.setData, Packet.bytes, designated, hb]
      | false =>
        refine ⟨{.serving (owner : ℤ) []}, ?_, by simp, by simp, by simp⟩
        simp [Completed.tokens, IOCompletionPort.dispatchTokens, dispatch, completion, context, hc,
          receiveContext, hb]
  | send context =>
    obtain ⟨o, rfl, ho⟩ := hcontext
    have hb := hsend (some o) rfl
    refine ⟨0, ?_, by simp, by simp, by simp⟩
    cases result <;>
      simp [Completed.tokens, IOCompletionPort.dispatchTokens, dispatch, completion, context, ho,
        Packet.tokens, hb] at hb ⊢

end EchoServer

end EchoIocp
