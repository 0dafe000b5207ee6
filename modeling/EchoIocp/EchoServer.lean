import EchoIocp.ClientDataSet

namespace EchoIocp

inductive OverlappedPtr
  | accept
  | receive
  | send (context : Option CustomOverlapped)
  deriving DecidableEq

/-- An operation posted by the `ClientDataSet` at the address `owner`. -/
structure Posted where
  owner : ℕ
  overlapped : OverlappedPtr
  deriving DecidableEq

def posted (owner : ℕ) (calls : List Call) : List Posted :=
  calls.filterMap fun
    | .acceptEx _ => some ⟨owner, .accept⟩
    | .wsaRecv _ _ => some ⟨owner, .receive⟩
    | .wsaSend _ context => some ⟨owner, .send context⟩
    | .processed _ | .deleted _ => none

@[simp] theorem posted_nil (owner : ℕ) : posted owner [] = [] := rfl

@[simp] theorem posted_append (owner : ℕ) (calls calls' : List Call) :
    posted owner (calls ++ calls') = posted owner calls ++ posted owner calls' :=
  List.filterMap_append

/-- `map[key] = value`, in the order of the keys. -/
def insertOrAssign (key : ℤ) (value : ℕ) : List (ℤ × ℕ) → List (ℤ × ℕ)
  | [] => [(key, value)]
  | entry :: rest =>
    if key < entry.1 then (key, value) :: entry :: rest
    else if key = entry.1 then (key, value) :: rest
    else entry :: insertOrAssign key value rest

/-- `heap` has the `ClientDataSet`s by address, those below `allocated` constructed. -/
structure EchoServer where
  heap : ℕ → ClientDataSet
  allocated : ℕ
  sockets : ℕ
  mClientDataConMap : List (ℤ × ℕ)
  accumulatedClientId : ℤ
  currentClientCount : ℤ
  currentClientMax : ℤ

namespace EchoServer

abbrev clientIncrease : ℕ := 1

/-- `EchoServer()`. -/
def new (memory : ℕ → ClientDataSet) : EchoServer := ⟨memory, 0, 0, [], 0, 0, 0⟩

variable (s : EchoServer)

def clientFinder (targetID : ℤ) : Option ℕ := s.mClientDataConMap.lookup targetID

def keys : List ℤ := s.mClientDataConMap.map Prod.fst

def assign (target : ℕ) (c : ClientDataSet) : EchoServer :=
  { s with heap := Function.update s.heap target c }

/-- One round of the first loop of `PrepareSocket`. -/
def createClient (currentId : ℤ) : EchoServer :=
  let address := s.allocated
  let socket := s.sockets
  { s with
    heap := Function.update s.heap address (.new (s.heap address) currentId socket)
    allocated := address + 1
    sockets := socket + 1
    mClientDataConMap := insertOrAssign currentId address s.mClientDataConMap }

def createClients : ℕ → ℤ → EchoServer → EchoServer
  | 0, _, s => s
  | count + 1, currentId, s => createClients count (currentId + 1) (s.createClient currentId)

/-- The second loop of `PrepareSocket`, over the keys of the map. -/
def tryAcceptAll (errorCode : ℤ → ℤ) : List ℤ → EchoServer → EchoServer × List Posted
  | [], s => (s, [])
  | id :: rest, s =>
    match s.clientFinder id with
    | none => tryAcceptAll errorCode rest s
    | some target =>
      let r := (s.heap target).tryAccept (errorCode id)
      let t := tryAcceptAll errorCode rest (s.assign target r.1)
      (t.1, posted target r.2.1 ++ t.2)

def prepareSocket (count : ℕ) (errorCode : ℤ → ℤ) : EchoServer × List Posted :=
  let currentId := s.accumulatedClientId
  let limit := currentId + count
  let s := createClients count currentId s
  let t := tryAcceptAll errorCode s.keys s
  ({ t.1 with
    accumulatedClientId := limit
    currentClientMax := t.1.currentClientMax + count }, t.2)

def accept (packet : Packet) (errorCode : ℤ → ℤ) : EchoServer × List Posted :=
  match s.clientFinder packet.clientID with
  | none => (s, [])
  | some target =>
    let r := (s.heap target).feedBackAccept true
    let s := s.assign target r.1
    let s := { s with currentClientCount := s.currentClientCount + 1 }
    let isEmpty := s.currentClientMax - s.currentClientCount ≤ 0
    if isEmpty then
      let p := s.prepareSocket clientIncrease errorCode
      (p.1, posted target r.2 ++ p.2)
    else (s, posted target r.2)

def send (packet : Packet) : EchoServer × List Posted :=
  match s.clientFinder packet.clientID with
  | none => (s, [])
  | some target =>
    let r := (s.heap target).sendRequest packet.dataSize packet.bufferPtr
    (s.assign target r.1, posted target r.2.1)

def receive (packet : Packet) : EchoServer × List Posted :=
  match s.clientFinder packet.clientID with
  | none => (s, [])
  | some target =>
    let r := (s.heap target).feedBackReceive packet.dataSize (packet.buffer.getD [])
    (s.assign target r.1, posted target r.2)

def disconnect (packet : Packet) (errorCode : ℤ → ℤ) : EchoServer × List Posted :=
  match s.clientFinder packet.clientID with
  | none => (s, [])
  | some target =>
    let s := { s with currentClientCount := s.currentClientCount - 1 }
    let r := (s.heap target).tryAccept (errorCode packet.clientID)
    (s.assign target r.1, posted target r.2.1)

/-- Key `i` is the client at address `i`, with `mID = i`. -/
structure Numbered : Prop where
  entries : s.mClientDataConMap = (List.range s.allocated).map fun i : ℕ => ((i : ℤ), i)
  ids : ∀ i < s.allocated, (s.heap i).mID = i

def connected (i : ℕ) : Bool := (s.heap i).mIsConnet

/-- The number of slots whose `mIsConnet` is set. -/
def connections : ℕ := s.mClientDataConMap.countP fun entry => (s.heap entry.2).mIsConnet

variable {s} {target n : ℕ} {c : ClientDataSet} {id : ℤ}

theorem new_numbered (memory : ℕ → ClientDataSet) : (new memory).Numbered :=
  ⟨rfl, fun _ hi => absurd hi (Nat.not_lt_zero _)⟩

theorem lookup_range (n : ℕ) (id : ℤ) :
    ((List.range n).map fun i : ℕ => ((i : ℤ), i)).lookup id = some target ↔
      id = target ∧ target < n := by
  induction n with
  | zero => simp
  | succ n ih =>
    rw [List.range_succ, List.map_append, List.lookup_append, Option.or_eq_some_iff, ih]
    by_cases hid : id = n
    · subst hid
      have hnone : ((List.range n).map fun i : ℕ => ((i : ℤ), i)).lookup (n : ℤ) = none := by
        rw [List.lookup_eq_none_iff]
        simp only [List.mem_map, List.mem_range, forall_exists_index, and_imp]
        rintro _ i hi rfl
        exact bne_iff_ne.mpr (by omega)
      simp only [hnone, List.map_singleton, List.lookup_cons_self, Option.some.injEq, true_and]
      omega
    · have hb : (id == (n : ℤ)) = false := beq_false_of_ne hid
      simp only [List.map_singleton, List.lookup_cons, hb, List.lookup_nil, reduceCtorEq, and_false,
        or_false]
      omega

theorem Numbered.finder (h : s.Numbered) :
    s.clientFinder id = some target ↔ id = target ∧ target < s.allocated := by
  rw [clientFinder, h.entries]
  exact lookup_range _ _

theorem mem_keys_insertOrAssign (key : ℤ) (value : ℕ) (l : List (ℤ × ℕ))
    (h : id ∈ l.map Prod.fst) : id ∈ (insertOrAssign key value l).map Prod.fst := by
  induction l with
  | nil => exact absurd h (by simp)
  | cons e l ih =>
    simp only [insertOrAssign]
    simp only [List.map_cons, List.mem_cons] at h
    split_ifs with hlt heq
    · rcases h with h | h <;> simp [h]
    · rcases h with h | h <;> simp [h, heq]
    · rcases h with h | h
      · simp [h]
      · simp [ih h]

theorem finder_isSome : (s.clientFinder id).isSome ↔ id ∈ s.keys := by
  rw [clientFinder, keys]
  induction s.mClientDataConMap with
  | nil => simp
  | cons e l ih =>
    by_cases hid : id = e.1 <;> simp [hid]

theorem Numbered.keys_eq (h : s.Numbered) :
    s.keys = (List.range s.allocated).map fun i : ℕ => (i : ℤ) := by
  simp [keys, h.entries]

theorem Numbered.connections_eq (h : s.Numbered) {l : List ℕ} (hl : l.Nodup)
    (hlt : ∀ i ∈ l, i < s.allocated) (hc : ∀ i < s.allocated, s.connected i = decide (i ∈ l)) :
    s.connections = l.length := by
  have hcount : s.connections = (List.range s.allocated).countP fun i => decide (i ∈ l) := by
    rw [connections, h.entries, List.countP_map]
    exact List.countP_congr fun i hi => by
      simpa [connected] using congrArg (· = true) (hc i (List.mem_range.mp hi))
  rw [hcount, List.countP_eq_length_filter]
  apply List.Perm.length_eq
  rw [List.perm_ext_iff_of_nodup (List.nodup_range.filter _) hl]
  intro i
  simp only [List.mem_filter, List.mem_range, decide_eq_true_eq]
  exact ⟨And.right, fun hi => ⟨hlt i hi, hi⟩⟩

theorem insertOrAssign_range (n : ℕ) :
    insertOrAssign n n ((List.range n).map fun i : ℕ => ((i : ℤ), i)) =
      (List.range (n + 1)).map fun i : ℕ => ((i : ℤ), i) := by
  have key (l : List (ℤ × ℕ)) (hl : ∀ e ∈ l, e.1 < n) :
      insertOrAssign n n l = l ++ [((n : ℤ), n)] := by
    induction l with
    | nil => rfl
    | cons e l ih =>
      have he := hl e (by simp)
      simp only [insertOrAssign, if_neg (not_lt.mpr he.le), if_neg he.ne',
        ih fun e' h' => hl e' (by simp [h']), List.cons_append]
  rw [List.range_succ, List.map_append]
  apply key
  simp

theorem Numbered.createClient (h : s.Numbered) : (s.createClient s.allocated).Numbered where
  entries := by
    simp only [EchoServer.createClient, h.entries]
    exact insertOrAssign_range _
  ids := by
    intro i hi
    simp only [EchoServer.createClient] at hi ⊢
    by_cases hn : i = s.allocated
    · simp [hn, ClientDataSet.new]
    · rw [Function.update_of_ne hn]
      exact h.ids i (by omega)

theorem Numbered.assign (h : s.Numbered) (hc : c.mID = (s.heap target).mID) :
    (s.assign target c).Numbered where
  entries := h.entries
  ids := by
    intro i hi
    by_cases hn : i = target
    · subst hn
      simpa [EchoServer.assign, hc] using h.ids i hi
    · simpa [EchoServer.assign, Function.update_of_ne hn] using h.ids i hi

@[simp] theorem assign_connected (i : ℕ) :
    (s.assign target c).connected i = if i = target then c.mIsConnet else s.connected i := by
  simp only [connected, assign, Function.update_apply]
  split_ifs <;> rfl

@[simp] theorem createClient_connected (i : ℕ) :
    (s.createClient id).connected i = if i = s.allocated then false else s.connected i := by
  simp only [connected, createClient, Function.update_apply]
  split_ifs <;> rfl

/-- `n` more clients, none of them connected; the rest of the server as before. -/
structure Grown (s s' : EchoServer) (n : ℕ) : Prop where
  numbered : s'.Numbered
  allocated : s'.allocated = s.allocated + n
  connected : ∀ i, s'.connected i = (if s.allocated ≤ i ∧ i < s.allocated + n then false
    else s.connected i)
  count : s'.currentClientCount = s.currentClientCount

theorem createClients_grown (n : ℕ) (h : s.Numbered) :
    Grown s (createClients n s.allocated s) n ∧
      (createClients n s.allocated s).currentClientMax = s.currentClientMax := by
  induction n generalizing s with
  | zero =>
    refine ⟨⟨h, rfl, fun i => ?_, rfl⟩, rfl⟩
    rw [if_neg (by omega)]
    rfl
  | succ n ih =>
    have hs : ((s.createClient s.allocated).allocated : ℤ) = (s.allocated : ℤ) + 1 := rfl
    obtain ⟨hg, hmax⟩ := ih h.createClient
    rw [hs] at hg hmax
    have ha : (s.createClient s.allocated).allocated = s.allocated + 1 := rfl
    refine ⟨⟨hg.numbered, ?_, fun i => ?_, hg.count⟩, hmax⟩
    · have hga := hg.allocated
      simp only [createClients]
      omega
    · rw [show createClients (n + 1) s.allocated s =
        createClients n (s.allocated + 1) (s.createClient s.allocated) from rfl, hg.connected, ha,
        createClient_connected]
      split_ifs <;> first | rfl | omega

theorem tryAccept_spec (target : ℕ) (c : ClientDataSet) (errorCode : ℤ) :
    (c.tryAccept errorCode).1.mID = c.mID ∧ (c.tryAccept errorCode).1.mIsConnet = c.mIsConnet ∧
      posted target (c.tryAccept errorCode).2.1 =
        if !c.mIsConnet && errorCode == 0 then [⟨target, .accept⟩] else [] := by
  simp only [ClientDataSet.tryAccept]
  split_ifs with hc he <;> simp_all [posted, ClientDataSet.fillAcceptContext]

/-- The second loop arms the slots that are not connected, and changes nothing else. -/
theorem tryAcceptAll_spec (errorCode : ℤ → ℤ) (ks : List ℕ) (h : s.Numbered)
    (hk : ∀ k ∈ ks, k < s.allocated) :
    (tryAcceptAll errorCode (ks.map fun k : ℕ => (k : ℤ)) s).1 = { s with
        heap := (tryAcceptAll errorCode (ks.map fun k : ℕ => (k : ℤ)) s).1.heap } ∧
      (tryAcceptAll errorCode (ks.map fun k : ℕ => (k : ℤ)) s).1.Numbered ∧
      (∀ i, (tryAcceptAll errorCode (ks.map fun k : ℕ => (k : ℤ)) s).1.connected i =
        s.connected i) ∧
      (tryAcceptAll errorCode (ks.map fun k : ℕ => (k : ℤ)) s).2 =
        (ks.filter fun k => !s.connected k && errorCode k == 0).map fun k => ⟨k, .accept⟩ := by
  induction ks generalizing s with
  | nil => exact ⟨rfl, h, fun _ => rfl, rfl⟩
  | cons k ks ih =>
    have hf : s.clientFinder k = some k := h.finder.mpr ⟨rfl, hk k (by simp)⟩
    obtain ⟨hid, hconn, hpost⟩ := tryAccept_spec k (s.heap k) (errorCode k)
    have hsame (i : ℕ) :
        (s.assign k ((s.heap k).tryAccept (errorCode k)).1).connected i = s.connected i := by
      rw [assign_connected]
      split_ifs with hi
      · rw [hconn, hi]
        rfl
      · rfl
    obtain ⟨h₁, h₂, h₃, h₄⟩ := ih (h.assign hid)
      fun k' hk' => hk k' (List.mem_cons_of_mem _ hk')
    simp only [List.map_cons, tryAcceptAll, hf]
    refine ⟨h₁, h₂, fun i => (h₃ i).trans (hsame i), ?_⟩
    rw [h₄, hpost]
    simp only [hsame, List.filter_cons]
    rw [show (s.heap k).mIsConnet = s.connected k from rfl]
    split_ifs <;> rfl

/-- `PrepareSocket` on a numbered map arms every slot not connected, old or new. -/
theorem prepareSocket_spec (n : ℕ) (errorCode : ℤ → ℤ) (h : s.Numbered)
    (hid : s.accumulatedClientId = s.allocated) :
    Grown s (s.prepareSocket n errorCode).1 n ∧
      (s.prepareSocket n errorCode).1.accumulatedClientId =
        (s.prepareSocket n errorCode).1.allocated ∧
      (s.prepareSocket n errorCode).1.currentClientMax = s.currentClientMax + n ∧
      (s.prepareSocket n errorCode).2 =
        ((List.range (s.allocated + n)).filter fun k =>
          !(s.prepareSocket n errorCode).1.connected k && errorCode k == 0).map
            fun k => ⟨k, .accept⟩ := by
  obtain ⟨hg, hmax⟩ := createClients_grown n h
  have hk := hg.numbered.keys_eq
  obtain ⟨h₁, h₂, h₃, h₄⟩ := tryAcceptAll_spec errorCode
    (List.range (createClients n s.allocated s).allocated) hg.numbered fun k => List.mem_range.mp
  rw [← hk] at h₁ h₂ h₃ h₄
  have ha : (tryAcceptAll errorCode (createClients n s.allocated s).keys
      (createClients n s.allocated s)).1.allocated = s.allocated + n := by
    rw [h₁]
    exact hg.allocated
  have hm : (tryAcceptAll errorCode (createClients n s.allocated s).keys
      (createClients n s.allocated s)).1.currentClientMax = s.currentClientMax := by
    rw [h₁]
    exact hmax
  have hc : (tryAcceptAll errorCode (createClients n s.allocated s).keys
      (createClients n s.allocated s)).1.currentClientCount = s.currentClientCount := by
    rw [h₁]
    exact hg.count
  simp only [prepareSocket, hid]
  refine ⟨⟨⟨h₂.entries, h₂.ids⟩, ha, fun i => (h₃ i).trans (hg.connected i), hc⟩, ?_, ?_, ?_⟩
  · rw [ha]
    push_cast
    rfl
  · rw [hm]
  · rw [h₄, hg.allocated]
    congr 2
    funext k
    exact congrArg (fun b => !b && errorCode k == 0) (h₃ k).symm

/-- No handler is running: the counters of slots agree with the map. -/
structure Settled (s : EchoServer) : Prop where
  numbered : s.Numbered
  nextId : s.accumulatedClientId = s.allocated
  slots : s.currentClientMax = s.allocated

theorem new_settled (memory : ℕ → ClientDataSet) : (new memory).Settled :=
  ⟨new_numbered memory, rfl, rfl⟩

theorem Settled.prepareSocket (h : s.Settled) (n : ℕ) (errorCode : ℤ → ℤ) :
    (s.prepareSocket n errorCode).1.Settled := by
  obtain ⟨hg, hid, hmax, -⟩ := prepareSocket_spec n errorCode h.numbered h.nextId
  refine ⟨hg.numbered, hid, ?_⟩
  rw [hmax, h.slots, hg.allocated]
  push_cast
  rfl

theorem feedBackAccept_spec (target : ℕ) (c : ClientDataSet) :
    (c.feedBackAccept true).1.mID = c.mID ∧ (c.feedBackAccept true).1.mIsConnet = true ∧
      posted target (c.feedBackAccept true).2 = [⟨target, .receive⟩] := ⟨rfl, rfl, rfl⟩

/-- The server after `FeedBack_Accept` and the store of `currentClientCount`. -/
def accepting (s : EchoServer) (target : ℕ) : EchoServer :=
  { s.assign target ((s.heap target).feedBackAccept true).1 with
    currentClientCount := s.currentClientCount + 1 }

theorem Settled.accepting (h : s.Settled) (target : ℕ) : (s.accepting target).Settled := by
  have hn := h.numbered.assign (feedBackAccept_spec target (s.heap target)).1
  exact ⟨⟨hn.entries, hn.ids⟩, h.nextId, h.slots⟩

theorem accepting_connected (i : ℕ) :
    (s.accepting target).connected i = (decide (i = target) || s.connected i) := by
  show (s.assign target ((s.heap target).feedBackAccept true).1).connected i = _
  rw [assign_connected]
  split_ifs with hi
  · simp [hi, (feedBackAccept_spec target (s.heap target)).2.1]
  · simp [hi]

theorem accept_eq {packet : Packet} (h : s.Settled) (hp : packet.clientID = target)
    (ht : target < s.allocated) (errorCode : ℤ → ℤ) :
    s.accept packet errorCode =
      if (s.allocated : ℤ) ≤ s.currentClientCount + 1 then
        (((s.accepting target).prepareSocket clientIncrease errorCode).1, ⟨target, .receive⟩ ::
          ((s.accepting target).prepareSocket clientIncrease errorCode).2)
      else (s.accepting target, [⟨target, .receive⟩]) := by
  have hf : s.clientFinder packet.clientID = some target := h.numbered.finder.mpr ⟨hp, ht⟩
  simp only [accept, hf]
  have hmax : (s.accepting target).currentClientMax = s.allocated := (h.accepting target).slots
  have hiff : s.currentClientMax - (s.currentClientCount + 1) ≤ 0 ↔
      (s.allocated : ℤ) ≤ s.currentClientCount + 1 := by
    have := h.slots
    omega
  by_cases hgrow : (s.allocated : ℤ) ≤ s.currentClientCount + 1
  · exact (if_pos (hiff.mpr hgrow)).trans (if_pos hgrow).symm
  · exact (if_neg (mt hiff.mp hgrow)).trans (if_neg hgrow).symm

theorem Settled.accept {packet : Packet} (h : s.Settled) (hp : packet.clientID = target)
    (ht : target < s.allocated) (errorCode : ℤ → ℤ) :
    (s.accept packet errorCode).1.Settled ∧
      (s.accept packet errorCode).1.currentClientCount = s.currentClientCount + 1 ∧
      (s.accept packet errorCode).1.allocated =
        (if (s.allocated : ℤ) ≤ s.currentClientCount + 1 then s.allocated + 1
          else s.allocated) ∧
      ∀ i, (s.accept packet errorCode).1.connected i =
        (if (s.allocated : ℤ) ≤ s.currentClientCount + 1 ∧ i = s.allocated then false
          else decide (i = target) || s.connected i) := by
  have ha := h.accepting target
  rw [accept_eq h hp ht]
  by_cases hgrow : (s.allocated : ℤ) ≤ s.currentClientCount + 1
  · simp only [if_pos hgrow]
    obtain ⟨hg, -⟩ := prepareSocket_spec clientIncrease errorCode ha.numbered ha.nextId
    refine ⟨ha.prepareSocket _ _, hg.count, hg.allocated, fun i => ?_⟩
    rw [hg.connected, accepting_connected]
    have hal : (s.accepting target).allocated = s.allocated := rfl
    have hi : (s.allocated ≤ i ∧ i < s.allocated + clientIncrease) ↔ i = s.allocated := by
      simp only [clientIncrease]
      omega
    simp only [hal, hi, hgrow, true_and]
  · simp only [if_neg hgrow]
    refine ⟨ha, rfl, rfl, fun i => ?_⟩
    rw [accepting_connected, if_neg fun hn => hgrow hn.1]

theorem Settled.accept_posted {packet : Packet} (h : s.Settled) (hp : packet.clientID = target)
    (ht : target < s.allocated) (errorCode : ℤ → ℤ) :
    (s.accept packet errorCode).2 = ⟨target, .receive⟩ ::
      if (s.allocated : ℤ) ≤ s.currentClientCount + 1 then
        ((List.range (s.allocated + 1)).filter fun k =>
          !(s.accept packet errorCode).1.connected k && errorCode k == 0).map
            fun k => ⟨k, .accept⟩
      else [] := by
  have ha := h.accepting target
  rw [accept_eq h hp ht]
  split_ifs
  · obtain ⟨-, -, -, hpost⟩ := prepareSocket_spec clientIncrease errorCode ha.numbered ha.nextId
    rw [hpost]
    rfl
  · rfl

theorem disconnect_eq {packet : Packet} (h : s.Settled) (hp : packet.clientID = target)
    (ht : target < s.allocated) (errorCode : ℤ → ℤ) :
    s.disconnect packet errorCode =
      ({ s.assign target ((s.heap target).tryAccept (errorCode packet.clientID)).1 with
          currentClientCount := s.currentClientCount - 1 },
        posted target ((s.heap target).tryAccept (errorCode packet.clientID)).2.1) := by
  have hf : s.clientFinder packet.clientID = some target := h.numbered.finder.mpr ⟨hp, ht⟩
  simp only [disconnect, hf]
  rfl

theorem Settled.disconnect {packet : Packet} (h : s.Settled) (hp : packet.clientID = target)
    (ht : target < s.allocated) (errorCode : ℤ → ℤ) :
    (s.disconnect packet errorCode).1.Settled ∧
      (s.disconnect packet errorCode).1.currentClientCount = s.currentClientCount - 1 ∧
      (s.disconnect packet errorCode).1.allocated = s.allocated ∧
      (∀ i, (s.disconnect packet errorCode).1.connected i = s.connected i) ∧
      (s.disconnect packet errorCode).2 =
        if !s.connected target && errorCode packet.clientID == 0 then [⟨target, .accept⟩]
        else [] := by
  obtain ⟨hid, hconn, hpost⟩ :=
    tryAccept_spec target (s.heap target) (errorCode packet.clientID)
  have hn := h.numbered.assign hid
  rw [disconnect_eq h hp ht]
  refine ⟨⟨⟨hn.entries, hn.ids⟩, h.nextId, h.slots⟩, rfl, rfl, fun i => ?_, hpost⟩
  show (s.assign target ((s.heap target).tryAccept (errorCode packet.clientID)).1).connected i = _
  rw [assign_connected]
  split_ifs with hi
  · rw [hconn, hi]
    rfl
  · rfl

end EchoServer

end EchoIocp
