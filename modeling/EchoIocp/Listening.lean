import EchoIocp.Lib.Machine
import EchoIocp.EchoServer
import Mathlib.Data.List.Perm.Basic

namespace EchoIocp

open EchoServer

/-- `outstanding` has the operations posted and not completed, `pending` the slots whose accept
packet waits, and `accepted` those whose accept was handled. -/
structure Listening where
  server : EchoServer
  outstanding : List Posted
  pending : List ℕ
  accepted : List ℕ

namespace Listening

inductive Act
  | complete (i : ℕ)
  | accept (i : ℕ)
  | disconnect (i : ℕ)
  deriving DecidableEq

def packet (i : ℕ) : Packet := Packet.set default i

/-- An accept completes while `AcceptEx` is outstanding; a client is disconnected, perhaps
several times, once its accept was handled. -/
def machine : Machine Listening Act Act where
  step s
    | .complete i =>
      if ⟨i, .accept⟩ ∈ s.outstanding then
        some ({ s with
          outstanding := s.outstanding.erase ⟨i, .accept⟩
          pending := i :: s.pending }, [.complete i])
      else none
    | .accept i =>
      if i ∈ s.pending then
        let r := s.server.accept (packet i) fun _ => 0
        some ({
          server := r.1
          outstanding := s.outstanding ++ r.2
          pending := s.pending.erase i
          accepted := i :: s.accepted }, [.accept i])
      else none
    | .disconnect i =>
      if i ∈ s.accepted then
        let r := s.server.disconnect (packet i) fun _ => 0
        some ({ s with server := r.1, outstanding := s.outstanding ++ r.2 }, [.disconnect i])
      else none

def start (memory : ℕ → ClientDataSet) (n : ℕ) : Listening :=
  let r := (EchoServer.new memory).prepareSocket n fun _ => 0
  ⟨r.1, r.2, [], []⟩

def armed (outstanding : List Posted) : List ℕ :=
  outstanding.filterMap fun p => if p.overlapped = .accept then some p.owner else none

/-- With no accept packet pending, some slot of the map has an `AcceptEx` outstanding. -/
def Listens (s : Listening) : Prop :=
  s.pending = [] → ∃ id target, s.server.clientFinder id = some target ∧
    ⟨target, .accept⟩ ∈ s.outstanding

/-- The slot whose `Disconnect` was just handled has an `AcceptEx` outstanding again. -/
def Rearmed (es : List Act) (s : Listening) : Prop :=
  ∀ i, es.getLast? = some (.disconnect i) → ⟨i, .accept⟩ ∈ s.outstanding

def Act.isAccept : Act → Bool
  | .accept _ => true
  | _ => false

def Act.isDisconnect : Act → Bool
  | .disconnect _ => true
  | _ => false

def accepts (as : List Act) : ℕ := as.countP Act.isAccept

/-- The accepts handled before the first `Disconnect`. -/
def acceptsBefore : List Act → ℕ
  | [] => 0
  | .complete _ :: as => acceptsBefore as
  | .accept _ :: as => acceptsBefore as + 1
  | .disconnect _ :: _ => 0

/-- Every slot is armed, pending or accepted, and the slots stop growing at the first
`Disconnect`. -/
structure Inv (n : ℕ) (as : List Act) (s : Listening) : Prop where
  settled : s.server.Settled
  slots : (armed s.outstanding ++ s.pending ++ s.accepted).Perm (List.range s.server.allocated)
  connected : ∀ i < s.server.allocated, s.server.connected i = decide (i ∈ s.accepted)
  accepted : s.accepted.length = accepts as
  count : s.server.currentClientCount = accepts as - as.countP Act.isDisconnect
  allocated : s.server.allocated = max n (acceptsBefore as + 1)

variable {n : ℕ} {as : List Act} {s s' : Listening} {a : Act} {out es : List Act}

theorem packet_id (i : ℕ) : (packet i).clientID = i := rfl

@[simp] theorem armed_nil : armed [] = [] := rfl

@[simp] theorem armed_append (l l' : List Posted) : armed (l ++ l') = armed l ++ armed l' :=
  List.filterMap_append

@[simp] theorem armed_receive (i : ℕ) (l : List Posted) :
    armed (⟨i, .receive⟩ :: l) = armed l := rfl

@[simp] theorem armed_accepts (l : List ℕ) : armed (l.map fun k => ⟨k, .accept⟩) = l := by
  simp [armed, List.filterMap_map]

theorem mem_armed {i : ℕ} {l : List Posted} : i ∈ armed l ↔ ⟨i, .accept⟩ ∈ l := by
  simp only [armed, List.mem_filterMap, Option.ite_none_right_eq_some, Option.some.injEq]
  constructor
  · rintro ⟨⟨owner, overlapped⟩, hm, rfl, rfl⟩
    exact hm
  · intro hm
    exact ⟨_, hm, rfl, rfl⟩

theorem armed_erase {i : ℕ} {l : List Posted} (h : ⟨i, .accept⟩ ∈ l) :
    (armed l).Perm (i :: armed (l.erase ⟨i, .accept⟩)) :=
  (List.perm_cons_erase h).filterMap _

theorem acceptsBefore_concat (as : List Act) (a : Act) : acceptsBefore (as ++ [a]) =
    if as.countP Act.isDisconnect = 0 then acceptsBefore as + (if a.isAccept then 1 else 0)
    else acceptsBefore as := by
  induction as with
  | nil => cases a <;> rfl
  | cons b as ih =>
    cases b with
    | disconnect i => simp [acceptsBefore, List.countP_cons, Act.isDisconnect]
    | complete i =>
      simpa [acceptsBefore, List.countP_cons, Act.isDisconnect] using ih
    | accept i =>
      simp only [List.cons_append, acceptsBefore, ih, List.countP_cons, Act.isDisconnect,
        Bool.false_eq_true, if_false, Nat.add_zero]
      split_ifs <;> omega

theorem accepts_concat (as : List Act) (a : Act) :
    accepts (as ++ [a]) = accepts as + (if a.isAccept then 1 else 0) := by
  simp [accepts, List.countP_append, List.countP_cons]

theorem acceptsBefore_of_none (h : as.countP Act.isDisconnect = 0) :
    acceptsBefore as = accepts as := by
  induction as with
  | nil => rfl
  | cons a as ih =>
    cases a with
    | disconnect i => simp [Act.isDisconnect] at h
    | complete i | accept i =>
      have hih := ih (by simpa [Act.isDisconnect] using h)
      simpa [acceptsBefore, accepts, Act.isAccept, List.countP_cons] using hih

theorem acceptsBefore_le (as : List Act) : acceptsBefore as ≤ accepts as := by
  induction as with
  | nil => exact Nat.le_refl _
  | cons a as ih =>
    cases a with
    | disconnect i => exact Nat.zero_le _
    | complete i | accept i =>
      simpa [acceptsBefore, accepts, Act.isAccept, List.countP_cons] using ih

theorem inv_start (memory : ℕ → ClientDataSet) (hn : 1 ≤ n) : Inv n [] (start memory n) := by
  have h := new_settled memory
  obtain ⟨hg, -, -, hpost⟩ := prepareSocket_spec n (fun _ => 0) h.numbered h.nextId
  have ha : (EchoServer.new memory).allocated = 0 := rfl
  have hconn (i : ℕ) (hi : i < 0 + n) :
      ((EchoServer.new memory).prepareSocket n fun _ => 0).1.connected i = false := by
    rw [hg.connected, ha, if_pos ⟨Nat.zero_le i, hi⟩]
  have hall : (start memory n).server.allocated = 0 + n := hg.allocated
  refine ⟨h.prepareSocket n _, ?_, fun i hi => ?_, rfl, hg.count, ?_⟩
  · have hfilter : ((List.range (0 + n)).filter fun k =>
        !((EchoServer.new memory).prepareSocket n fun _ => 0).1.connected k && (0 : ℤ) == 0) =
        List.range (0 + n) := by
      apply List.filter_eq_self.mpr
      intro k hk
      rw [hconn k (List.mem_range.mp hk)]
      rfl
    rw [hall]
    simp only [start, List.append_nil]
    rw [hpost, ha, hfilter, armed_accepts]
  · rw [hall] at hi
    exact hconn i hi
  · rw [hall]
    simp only [acceptsBefore]
    omega

theorem Inv.length (h : Inv n as s) : (armed s.outstanding).length + s.pending.length +
    accepts as = s.server.allocated := by
  have hlen := h.slots.length_eq
  simp only [List.length_append, List.length_range, h.accepted] at hlen
  exact hlen

theorem Inv.lt_of_pending (h : Inv n as s) {i : ℕ} (hi : i ∈ s.pending) :
    i < s.server.allocated :=
  List.mem_range.mp (h.slots.mem_iff.mp (by simp [hi]))

theorem Inv.lt_of_accepted (h : Inv n as s) {i : ℕ} (hi : i ∈ s.accepted) :
    i < s.server.allocated :=
  List.mem_range.mp (h.slots.mem_iff.mp (by simp [hi]))

/-- A slot that was accepted is never armed again. -/
theorem Inv.not_armed (h : Inv n as s) {i : ℕ} (hi : i ∈ s.accepted) :
    ⟨i, .accept⟩ ∉ s.outstanding := by
  intro hm
  have hn := h.slots.nodup_iff.mpr List.nodup_range
  exact (List.nodup_append.mp hn).2.2 i (List.mem_append_left _ (mem_armed.mpr hm)) i hi rfl

theorem inv_complete {i : ℕ} (h : Inv n as s) (hm : ⟨i, .accept⟩ ∈ s.outstanding) :
    Inv n (as ++ [.complete i]) { s with
      outstanding := s.outstanding.erase ⟨i, .accept⟩
      pending := i :: s.pending } := by
  refine ⟨h.settled, ?_, h.connected, ?_, ?_, ?_⟩
  · refine List.Perm.trans ?_ h.slots
    apply List.Perm.append_right
    exact List.perm_middle.trans ((armed_erase hm).append_right s.pending).symm
  · simpa [accepts_concat, Act.isAccept] using h.accepted
  · simpa [accepts_concat, Act.isAccept, Act.isDisconnect, List.countP_append] using h.count
  · simpa [acceptsBefore_concat, Act.isAccept] using h.allocated

theorem inv_disconnect {i : ℕ} (h : Inv n as s) (hm : i ∈ s.accepted) :
    Inv n (as ++ [.disconnect i]) { s with
      server := (s.server.disconnect (packet i) fun _ => 0).1
      outstanding := s.outstanding ++ (s.server.disconnect (packet i) fun _ => 0).2 } := by
  have hi := h.lt_of_accepted hm
  obtain ⟨hset, hcount, hall, hconn, hpost⟩ :=
    h.settled.disconnect (packet_id i) hi fun _ => 0
  have hc : s.server.connected i = true := by simpa [hm] using h.connected i hi
  refine ⟨hset, ?_, fun k hk => (hconn k).trans (h.connected k (hall ▸ hk)), ?_, ?_, ?_⟩
  · simpa [hpost, hc, hall] using h.slots
  · simpa [accepts_concat, Act.isAccept] using h.accepted
  · rw [hcount, h.count]
    simp only [accepts_concat, Act.isAccept, Act.isDisconnect, List.countP_append,
      List.countP_singleton, Bool.false_eq_true, if_false, if_true]
    push_cast
    omega
  · simpa [acceptsBefore_concat, Act.isAccept, hall] using h.allocated

theorem Inv.accept_growth (h : Inv n as s) {i : ℕ} (hm : i ∈ s.pending)
    (hgrow : (s.server.allocated : ℤ) ≤ s.server.currentClientCount + 1) :
    as.countP Act.isDisconnect = 0 ∧ armed s.outstanding = [] ∧ s.pending = [i] ∧
      accepts as + 1 = s.server.allocated := by
  have hlen := h.length
  have hpos := List.length_pos_of_mem hm
  rw [h.count] at hgrow
  -- the slots are armed, pending or accepted, and all but `i` are accepted
  have harmed : (armed s.outstanding).length = 0 := by omega
  obtain ⟨j, hj⟩ := List.length_eq_one_iff.mp (show s.pending.length = 1 by omega)
  obtain rfl : i = j := by simpa [hj] using hm
  exact ⟨by omega, List.length_eq_zero_iff.mp harmed, hj, by omega⟩

theorem Inv.accept_slots {i : ℕ} (h : Inv n as s) (hm : i ∈ s.pending) :
    (armed s.outstanding ++ (s.pending.erase i ++ i :: s.accepted)).Perm
      (List.range s.server.allocated) := by
  have hmoved : (s.pending.erase i ++ i :: s.accepted).Perm (s.pending ++ s.accepted) :=
    List.perm_middle.trans ((List.perm_cons_erase hm).symm.append_right s.accepted)
  refine (hmoved.append_left _).trans ?_
  rw [← List.append_assoc]
  exact h.slots

theorem Inv.accept_connected {i : ℕ} (h : Inv n as s) (hm : i ∈ s.pending) (k : ℕ)
    (hk : k < s.server.allocated) :
    (s.server.accept (packet i) fun _ => 0).1.connected k = decide (k ∈ i :: s.accepted) := by
  obtain ⟨-, -, -, hconn⟩ := h.settled.accept (packet_id i) (h.lt_of_pending hm) fun _ => 0
  rw [hconn, if_neg (by omega), h.connected k hk, Bool.eq_iff_iff]
  simp

theorem Inv.accept_count {i : ℕ} (h : Inv n as s) (hm : i ∈ s.pending) :
    (s.server.accept (packet i) fun _ => 0).1.currentClientCount =
      accepts (as ++ [.accept i]) - (as ++ [Act.accept i]).countP Act.isDisconnect := by
  obtain ⟨-, hcount, -⟩ := h.settled.accept (packet_id i) (h.lt_of_pending hm) fun _ => 0
  rw [hcount, h.count, accepts_concat, List.countP_append]
  simp only [Act.isAccept, Act.isDisconnect, List.countP_singleton, if_true, Bool.false_eq_true,
    if_false]
  push_cast
  omega

theorem Inv.accept_allocated {i : ℕ} (h : Inv n as s) (hm : i ∈ s.pending) :
    (s.server.accept (packet i) fun _ => 0).1.allocated =
      max n (acceptsBefore (as ++ [.accept i]) + 1) := by
  obtain ⟨-, -, hall, -⟩ := h.settled.accept (packet_id i) (h.lt_of_pending hm) fun _ => 0
  have hbefore := acceptsBefore_concat as (.accept i)
  simp only [Act.isAccept, if_true] at hbefore
  have hold := h.allocated
  have hle := acceptsBefore_le as
  have hlen := h.length
  have hpos := List.length_pos_of_mem hm
  by_cases hgrow : (s.server.allocated : ℤ) ≤ s.server.currentClientCount + 1
  · obtain ⟨hd, -, -, hlast⟩ := h.accept_growth hm hgrow
    rw [hall, if_pos hgrow, hbefore, if_pos hd]
    have := acceptsBefore_of_none hd
    omega
  · rw [hall, if_neg hgrow, hbefore]
    rw [h.count] at hgrow
    split_ifs with hd
    · have := acceptsBefore_of_none hd
      omega
    · exact hold

theorem Inv.accept_arms {i : ℕ} (h : Inv n as s) (hm : i ∈ s.pending)
    (hgrow : (s.server.allocated : ℤ) ≤ s.server.currentClientCount + 1) :
    armed (s.server.accept (packet i) fun _ => 0).2 = [s.server.allocated] := by
  -- growth arms the new slot alone: all the others are connected
  have hi := h.lt_of_pending hm
  obtain ⟨-, -, -, hconn⟩ := h.settled.accept (packet_id i) hi fun _ => 0
  obtain ⟨-, harmed, hpend, -⟩ := h.accept_growth hm hgrow
  have hfilter : ((List.range (s.server.allocated + 1)).filter fun k =>
      !(s.server.accept (packet i) fun _ => 0).1.connected k && (0 : ℤ) == 0) =
      [s.server.allocated] := by
    rw [List.range_succ, List.filter_append, List.filter_eq_nil_iff.mpr]
    · simp [hconn, hgrow]
    · intro k hk
      have hk' := List.mem_range.mp hk
      have hmem : k ∈ i :: s.accepted := by
        simpa [harmed, hpend] using h.slots.mem_iff.mpr hk
      rw [h.accept_connected hm k hk']
      simp [hmem]
  rw [h.settled.accept_posted (packet_id i) hi fun _ => 0, if_pos hgrow, hfilter, armed_receive,
    armed_accepts]

theorem inv_accept {i : ℕ} (h : Inv n as s) (hm : i ∈ s.pending) :
    Inv n (as ++ [.accept i]) {
      server := (s.server.accept (packet i) fun _ => 0).1
      outstanding := s.outstanding ++ (s.server.accept (packet i) fun _ => 0).2
      pending := s.pending.erase i
      accepted := i :: s.accepted } := by
  have hi := h.lt_of_pending hm
  obtain ⟨hset, -, hall, hconn⟩ := h.settled.accept (packet_id i) hi fun _ => 0
  have hslots := h.accept_slots hm
  have hacc : (i :: s.accepted).length = accepts (as ++ [.accept i]) := by
    simp [h.accepted, accepts_concat, Act.isAccept]
  by_cases hgrow : (s.server.allocated : ℤ) ≤ s.server.currentClientCount + 1
  · rw [if_pos hgrow] at hall
    refine ⟨hset, ?_, fun k hk => ?_, hacc, h.accept_count hm, h.accept_allocated hm⟩
    · -- the new slot is armed, and every other one accepted
      obtain ⟨-, harmed, hpend, -⟩ := h.accept_growth hm hgrow
      simp only [armed_append, h.accept_arms hm hgrow, harmed, hpend, List.erase_cons_head,
        List.nil_append, List.append_nil, hall, List.range_succ] at hslots ⊢
      exact List.perm_append_comm.trans (hslots.append_right _)
    · rw [hall] at hk
      rcases Nat.lt_succ_iff_lt_or_eq.mp hk with hk | rfl
      · exact h.accept_connected hm k hk
      · rw [hconn, if_pos ⟨hgrow, rfl⟩]
        symm
        rw [decide_eq_false_iff_not]
        intro hmem
        exact absurd (List.mem_range.mp (hslots.mem_iff.mp
          (List.mem_append_right _ (List.mem_append_right _ hmem)))) (lt_irrefl _)
  · rw [if_neg hgrow] at hall
    refine ⟨hset, ?_, fun k hk => h.accept_connected hm k (hall ▸ hk), hacc, h.accept_count hm,
      h.accept_allocated hm⟩
    rw [h.settled.accept_posted (packet_id i) hi fun _ => 0, if_neg hgrow, hall, List.append_assoc]
    simpa using hslots

theorem inv_step (h : Inv n as s) (hs : machine.step s a = some (s', out)) :
    Inv n (as ++ [a]) s' ∧ out = [a] := by
  cases a with
  | complete i =>
    simp only [machine] at hs
    split_ifs at hs with hm
    obtain ⟨rfl, rfl⟩ := Prod.mk.inj (Option.some.inj hs)
    exact ⟨inv_complete h hm, rfl⟩
  | accept i =>
    simp only [machine] at hs
    split_ifs at hs with hm
    obtain ⟨rfl, rfl⟩ := Prod.mk.inj (Option.some.inj hs)
    exact ⟨inv_accept h hm, rfl⟩
  | disconnect i =>
    simp only [machine] at hs
    split_ifs at hs with hm
    obtain ⟨rfl, rfl⟩ := Prod.mk.inj (Option.some.inj hs)
    exact ⟨inv_disconnect h hm, rfl⟩

theorem inv_of_run (memory : ℕ → ClientDataSet) (hn : 1 ≤ n)
    (hr : machine.run (start memory n) as = some (s, es)) : Inv n as s ∧ es = as := by
  refine machine.run_induction (P := fun bs es s => Inv n bs s ∧ es = bs)
    ⟨inv_start memory hn, rfl⟩ ?_ hr
  rintro bs _ s₁ a s₂ _ _ ⟨hi, rfl⟩ hs
  obtain ⟨hi', rfl⟩ := inv_step hi hs
  exact ⟨hi', rfl⟩

/-- The server listens while some slot is left that was never accepted. -/
theorem Inv.listens_iff (h : Inv n as s) :
    Listens s ↔ (s.pending = [] → accepts as < s.server.allocated) := by
  have hlen := h.length
  constructor
  · intro hl hp
    obtain ⟨_, target, -, hm⟩ := hl hp
    have := List.length_pos_of_mem (mem_armed.mpr hm)
    omega
  · intro hlt hp
    have hpos : 0 < (armed s.outstanding).length := by
      have := hlt hp
      simp only [hp, List.length_nil] at hlen
      omega
    obtain ⟨i, hi⟩ := List.exists_mem_of_length_pos hpos
    have hlt' : i < s.server.allocated :=
      List.mem_range.mp (h.slots.mem_iff.mp (by simp [hi]))
    exact ⟨i, i, h.settled.numbered.finder.mpr ⟨rfl, hlt'⟩, mem_armed.mp hi⟩

theorem accepts_mono {as' : List Act} (h : as' <+: as) : accepts as' ≤ accepts as :=
  h.sublist.countP_le

theorem acceptsBefore_append {bs : List Act} (hd : as.countP Act.isDisconnect ≠ 0) :
    acceptsBefore (as ++ bs) = acceptsBefore as := by
  induction as with
  | nil => exact absurd rfl hd
  | cons a as ih =>
    cases a with
    | disconnect i => rfl
    | complete i | accept i =>
      have hih := ih (by simpa [List.countP_cons, Act.isDisconnect] using hd)
      simpa [acceptsBefore] using hih

/-- The server listens throughout a run exactly when the run accepts fewer clients than the
slots it has by the first `Disconnect`; a disconnected slot is never armed again. -/
theorem listens_along_iff (memory : ℕ → ClientDataSet) (n : ℕ) (hn : 1 ≤ n) (as : List Act)
    (s : Listening) (es : List Act) (h : machine.run (start memory n) as = some (s, es)) :
    (machine.Along (start memory n) as (fun _ s => Listens s) ↔
      accepts as < max n (acceptsBefore as + 1)) ∧
    (machine.Along (start memory n) as Rearmed ↔ ∀ i, .disconnect i ∉ as) := by
  obtain ⟨hinv, -⟩ := inv_of_run memory hn h
  refine ⟨⟨fun hal => ?_, fun hlt as' es' s' hp hr => ?_⟩,
    ⟨fun hal i hi => ?_, fun hnone as' es' s' hp hr i hlast => ?_⟩⟩
  · have hl := hinv.listens_iff.mp (hal.last h)
    have hlen := hinv.length
    rw [← hinv.allocated]
    by_cases hp : s.pending = []
    · exact hl hp
    · have := List.length_pos_iff.mpr hp
      omega
  · obtain ⟨hinv', -⟩ := inv_of_run memory hn hr
    rw [hinv'.listens_iff, hinv'.allocated]
    intro _
    by_cases hd : as'.countP Act.isDisconnect = 0
    · have := acceptsBefore_of_none hd
      omega
    · obtain ⟨rest, rfl⟩ := hp
      have hmono := accepts_mono (List.prefix_append as' rest)
      rw [acceptsBefore_append hd] at hlt
      omega
  · -- at the `Disconnect` itself the slot is still marked connected, so `TryAccept` returns
    obtain ⟨as₁, as₂, rfl⟩ := List.append_of_mem hi
    have hsplit : as₁ ++ .disconnect i :: as₂ = (as₁ ++ [.disconnect i]) ++ as₂ := by simp
    rw [hsplit, Machine.run_append] at h
    obtain ⟨s₁, e₁, e₂, hr, -, -⟩ := h
    obtain ⟨hinv₁, rfl⟩ := inv_of_run memory hn hr
    have hmem := hal _ _ _ (hsplit ▸ List.prefix_append _ _) hr i (by simp)
    refine hinv₁.not_armed ?_ hmem
    obtain ⟨s₀, _, _, -, hs, -⟩ := (Machine.run_concat _).mp hr
    simp only [machine] at hs
    split_ifs at hs with hacc
    obtain ⟨rfl, -⟩ := Prod.mk.inj (Option.some.inj hs)
    exact hacc
  · obtain ⟨-, rfl⟩ := inv_of_run memory hn hr
    exact absurd (hp.subset (List.mem_of_getLast? hlast)) (hnone i)

theorem listens_along_iff_two_slots :
    ∃ s es, machine.run (start (fun _ => default) 2)
        [.complete 0, .accept 0, .disconnect 0, .complete 1, .accept 1] = some (s, es) ∧
      (machine.Along (start (fun _ => default) 2)
          [.complete 0, .accept 0, .disconnect 0, .complete 1, .accept 1]
          (fun _ s => Listens s) ↔
        accepts [.complete 0, .accept 0, .disconnect 0, .complete 1, .accept 1] <
          max 2 (acceptsBefore [.complete 0, .accept 0, .disconnect 0, .complete 1, .accept 1] +
            1)) ∧
      (machine.Along (start (fun _ => default) 2)
          [.complete 0, .accept 0, .disconnect 0, .complete 1, .accept 1] Rearmed ↔
        ∀ i, .disconnect i ∉ [Act.complete 0, .accept 0, .disconnect 0, .complete 1, .accept 1]) :=
  ⟨_, _, rfl, listens_along_iff (fun _ => default) 2 (by decide) _ _ _ rfl⟩

/-- One slot: a client comes and goes, the next one takes the slot grown for it, and nothing
listens although the counters say one slot is free. -/
theorem stops_listening :
    ∃ s es, machine.run (start (fun _ => default) 1)
        [.complete 0, .accept 0, .disconnect 0, .complete 1, .accept 1] = some (s, es) ∧
      s.server.currentClientMax - s.server.currentClientCount = 1 ∧ s.pending = [] ∧
      ¬ Listens s := by
  refine ⟨_, _, rfl, rfl, rfl, fun h => ?_⟩
  obtain ⟨_, target, -, hm⟩ := h rfl
  have hout : (⟨target, .accept⟩ : Posted) ∈ [⟨0, .receive⟩, ⟨1, .receive⟩] := hm
  simp at hout

end Listening

end EchoIocp
