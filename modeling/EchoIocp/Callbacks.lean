import EchoIocp.Lib.Machine
import EchoIocp.EchoServer
import Mathlib.Data.Finset.Card
import Mathlib.Data.Finset.Range

namespace EchoIocp

open EchoServer

/-- `accepted` has the slots whose `Accept` was handled, latest first, and `live` those not
disconnected since. -/
structure Callbacks where
  server : EchoServer
  accepted : List ℕ
  live : Finset ℕ

namespace Callbacks

inductive Act
  | accept (packet : Packet) (errorCode : ℤ → ℤ)
  | disconnect (packet : Packet) (errorCode : ℤ → ℤ)

def Act.clientID : Act → ℤ
  | .accept packet _ | .disconnect packet _ => packet.clientID

def Act.isAccept : Act → Bool
  | .accept _ _ => true
  | .disconnect _ _ => false

/-- Ids are in the map; a client is disconnected, perhaps several times, once accepted. -/
def machine : Machine Callbacks Act Posted where
  step s
    | .accept packet errorCode =>
      (s.server.clientFinder packet.clientID).map fun target =>
        let r := s.server.accept packet errorCode
        (⟨r.1, target :: s.accepted, insert target s.live⟩, r.2)
    | .disconnect packet errorCode =>
      (s.server.clientFinder packet.clientID).bind fun target =>
        if target ∈ s.accepted then
          let r := s.server.disconnect packet errorCode
          some (⟨r.1, s.accepted, s.live.erase target⟩, r.2)
        else none

def start (memory : ℕ → ClientDataSet) (n : ℕ) (errorCode : ℤ → ℤ) : Callbacks :=
  ⟨((EchoServer.new memory).prepareSocket n errorCode).1, [], ∅⟩

/-- The counter is in range and agrees with both counts of live connections. -/
structure CountsLive (s : Callbacks) : Prop where
  nonneg : 0 ≤ s.server.currentClientCount
  le_max : s.server.currentClientCount ≤ s.server.currentClientMax
  live : s.server.currentClientCount = s.live.card
  connected : s.server.currentClientCount = s.server.connections

structure Inv (as : List Act) (s : Callbacks) : Prop where
  settled : s.server.Settled
  ids : as.map Act.clientID = s.accepted.reverse.map fun i : ℕ => (i : ℤ)
  count : s.server.currentClientCount = s.accepted.length
  live : s.live = s.accepted.toFinset
  nodup : s.accepted.Nodup
  lt : ∀ i ∈ s.accepted, i < s.server.allocated
  connected : ∀ i < s.server.allocated, s.server.connected i = decide (i ∈ s.accepted)

variable {as : List Act} {s s' : Callbacks} {a : Act} {out es : List Posted}

theorem inv_start (memory : ℕ → ClientDataSet) (n : ℕ) (errorCode : ℤ → ℤ) :
    Inv [] (start memory n errorCode) := by
  have h := new_settled memory
  obtain ⟨hg, -⟩ := prepareSocket_spec n errorCode h.numbered h.nextId
  refine ⟨h.prepareSocket n errorCode, rfl, hg.count, rfl, List.nodup_nil, by simp [start], ?_⟩
  intro i hi
  have ha : (EchoServer.new memory).allocated = 0 := rfl
  have hlt : i < 0 + n := by
    rw [← ha, ← hg.allocated]
    exact hi
  show ((EchoServer.new memory).prepareSocket n errorCode).1.connected i = _
  rw [hg.connected, ha, if_pos ⟨Nat.zero_le i, hlt⟩]
  rfl

theorem Inv.countsLive (h : Inv as s) : CountsLive s where
  nonneg := by
    rw [h.count]
    exact Int.natCast_nonneg _
  le_max := by
    rw [h.count, h.settled.slots, ← List.toFinset_card_of_nodup h.nodup]
    have hsub : s.accepted.toFinset ⊆ Finset.range s.server.allocated := by
      intro i hi
      exact Finset.mem_range.mpr (h.lt i (List.mem_toFinset.mp hi))
    have hcard := Finset.card_le_card hsub
    rw [Finset.card_range] at hcard
    exact Int.ofNat_le.mpr hcard
  live := by rw [h.count, h.live, List.toFinset_card_of_nodup h.nodup]
  connected := by
    rw [h.count, h.settled.numbered.connections_eq h.nodup h.lt h.connected]

/-- An `Accept` leaves connected the slots accepted so far, each counted once. -/
theorem Inv.accept_connections (h : Inv as s) {packet : Packet} {target : ℕ}
    (hf : s.server.clientFinder packet.clientID = some target) (errorCode : ℤ → ℤ) :
    (∀ i ∈ s.accepted.insert target, i < (s.server.accept packet errorCode).1.allocated) ∧
      (∀ i < (s.server.accept packet errorCode).1.allocated,
        (s.server.accept packet errorCode).1.connected i =
          decide (i ∈ s.accepted.insert target)) ∧
      (s.server.accept packet errorCode).1.connections = (s.accepted.insert target).length := by
  obtain ⟨hp, ht⟩ := h.settled.numbered.finder.mp hf
  obtain ⟨hs, -, hall, hconn⟩ := h.settled.accept hp ht errorCode
  have hlt : ∀ i ∈ s.accepted.insert target, i < s.server.allocated := by
    intro i hi
    rcases List.mem_insert_iff.mp hi with rfl | hi
    · exact ht
    · exact h.lt i hi
  have hlt' : ∀ i ∈ s.accepted.insert target,
      i < (s.server.accept packet errorCode).1.allocated := by
    intro i hi
    have := hlt i hi
    rw [hall]
    split_ifs <;> omega
  have hc : ∀ i < (s.server.accept packet errorCode).1.allocated,
      (s.server.accept packet errorCode).1.connected i =
        decide (i ∈ s.accepted.insert target) := by
    intro i hi
    rw [hconn]
    split_ifs with hnew
    · symm
      rw [decide_eq_false_iff_not]
      intro hmem
      have := hlt i hmem
      omega
    · have hold : i < s.server.allocated := by
        rw [hall] at hi
        split_ifs at hi <;> omega
      rw [h.connected i hold, Bool.eq_iff_iff]
      simp [List.mem_insert_iff]
  exact ⟨hlt', hc, hs.numbered.connections_eq (h.nodup.insert) hlt' hc⟩

theorem Inv.mem_iff (h : Inv as s) (target : ℕ) :
    (target : ℤ) ∈ as.map Act.clientID ↔ target ∈ s.accepted := by
  rw [h.ids]
  constructor
  · intro hi
    obtain ⟨i, hi, he⟩ := List.mem_map.mp hi
    rw [← Int.ofNat_inj.mp he]
    exact List.mem_reverse.mp hi
  · intro hi
    exact List.mem_map_of_mem (List.mem_reverse.mpr hi)

theorem Inv.accept (h : Inv as s) {packet : Packet} {errorCode : ℤ → ℤ} {target : ℕ}
    (hf : s.server.clientFinder packet.clientID = some target) (hnew : target ∉ s.accepted) :
    Inv (as ++ [.accept packet errorCode])
      ⟨(s.server.accept packet errorCode).1, target :: s.accepted, insert target s.live⟩ := by
  obtain ⟨hp, ht⟩ := h.settled.numbered.finder.mp hf
  obtain ⟨hset, hcount, -⟩ := h.settled.accept hp ht errorCode
  obtain ⟨hlt, hconn, -⟩ := h.accept_connections hf errorCode
  rw [List.insert_of_not_mem hnew] at hlt hconn
  refine ⟨hset, ?_, ?_, ?_, List.nodup_cons.mpr ⟨hnew, h.nodup⟩, hlt, hconn⟩
  · simp [h.ids, Act.clientID, hp]
  · rw [hcount, h.count]
    simp
  · simp [h.live]

/-- The counter is right after a first `Accept`, wrong after a second one or a `Disconnect`. -/
theorem Inv.step_iff (h : Inv as s) (hs : machine.step s a = some (s', out)) :
    CountsLive s' ↔ a.isAccept = true ∧ a.clientID ∉ as.map Act.clientID := by
  cases a with
  -- a second accept of a slot counts it again but connects no slot more
  | accept packet errorCode =>
    simp only [machine, Option.map_eq_some_iff, Prod.mk.injEq] at hs
    obtain ⟨target, hf, rfl, rfl⟩ := hs
    obtain ⟨hp, ht⟩ := h.settled.numbered.finder.mp hf
    simp only [Act.isAccept, Act.clientID, hp, h.mem_iff, true_and]
    constructor
    · intro hc hin
      have hl := hc.connected
      rw [(h.settled.accept hp ht errorCode).2.1, (h.accept_connections hf errorCode).2.2, h.count,
        List.insert_of_mem hin] at hl
      omega
    · intro hnew
      exact (h.accept hf hnew).countsLive
  -- the counter goes down and `mIsConnet` stays set
  | disconnect packet errorCode =>
    simp only [machine, Option.bind_eq_some_iff] at hs
    obtain ⟨target, hf, hs⟩ := hs
    split_ifs at hs with hin
    obtain ⟨rfl, rfl⟩ := Prod.mk.inj (Option.some.inj hs)
    obtain ⟨hp, ht⟩ := h.settled.numbered.finder.mp hf
    obtain ⟨hset, hcount, hall, hconn, -⟩ := h.settled.disconnect hp ht errorCode
    simp only [Act.isAccept, Bool.false_eq_true, false_and, iff_false]
    intro hc
    have hnum := hset.numbered.connections_eq h.nodup (hall ▸ h.lt)
      fun i hi => (hconn i).trans (h.connected i (hall ▸ hi))
    have hl := hc.connected
    rw [hcount, hnum, h.count] at hl
    omega

theorem Inv.step (h : Inv as s) (hs : machine.step s a = some (s', out))
    (ha : a.isAccept = true ∧ a.clientID ∉ as.map Act.clientID) : Inv (as ++ [a]) s' := by
  cases a with
  | accept packet errorCode =>
    simp only [machine, Option.map_eq_some_iff, Prod.mk.injEq] at hs
    obtain ⟨target, hf, rfl, rfl⟩ := hs
    obtain ⟨hp, -⟩ := h.settled.numbered.finder.mp hf
    exact h.accept hf fun hin => ha.2 (by rwa [Act.clientID, hp, h.mem_iff])
  | disconnect packet errorCode => exact absurd ha.1 Bool.false_ne_true

def FirstAccepts (as : List Act) : Prop :=
  (∀ a ∈ as, a.isAccept = true) ∧ (as.map Act.clientID).Nodup

theorem firstAccepts_concat : FirstAccepts (as ++ [a]) ↔
    FirstAccepts as ∧ a.isAccept = true ∧ a.clientID ∉ as.map Act.clientID := by
  simp only [FirstAccepts, List.map_append, List.map_singleton, List.nodup_append,
    List.mem_append, List.mem_singleton]
  constructor
  · rintro ⟨hacc, hn, -, hd⟩
    exact ⟨⟨fun b hb => hacc b (.inl hb), hn⟩, hacc a (.inr rfl),
      fun hin => hd _ hin _ rfl rfl⟩
  · rintro ⟨⟨hacc, hn⟩, ha, hnew⟩
    refine ⟨?_, hn, List.nodup_singleton _, ?_⟩
    · rintro b (hb | rfl)
      · exact hacc b hb
      · exact ha
    · rintro _ hb _ rfl rfl
      exact hnew hb

theorem inv_of_run {s₀ : Callbacks} (h0 : Inv [] s₀) (hr : machine.run s₀ as = some (s, es))
    (hf : FirstAccepts as) : Inv as s := by
  refine machine.run_induction (P := fun bs _ s => FirstAccepts bs → Inv bs s) (fun _ => h0) ?_
    hr hf
  intro bs _ s₁ a s₂ _ _ ih hs hb
  obtain ⟨hb, ha⟩ := firstAccepts_concat.mp hb
  exact (ih hb).step hs ha

/-- `currentClientCount` counts the live connections throughout a run exactly when the run
has no `Disconnect` and accepts no client twice. -/
theorem countsLive_along_iff (memory : ℕ → ClientDataSet) (n : ℕ) (errorCode : ℤ → ℤ)
    (as : List Act) (s : Callbacks) (es : List Posted)
    (h : machine.run (start memory n errorCode) as = some (s, es)) :
    machine.Along (start memory n errorCode) as (fun _ s => CountsLive s) ↔
      FirstAccepts as := by
  have h0 := inv_start memory n errorCode
  constructor
  · intro hal
    -- from the last call back: the invariant before it says what the counter becomes
    induction as using List.reverseRecOn generalizing s es with
    | nil => exact ⟨by simp, by simp⟩
    | append_singleton as a ih =>
      obtain ⟨s₁, e₁, e₂, hr, hs, -⟩ := (Machine.run_concat _).mp h
      have hpre : as <+: as ++ [a] := List.prefix_append _ _
      have hf := ih s₁ e₁ hr (hal.take hpre)
      have hinv := inv_of_run h0 hr hf
      exact firstAccepts_concat.mpr ⟨hf, (hinv.step_iff hs).mp (hal.last h)⟩
  · intro hf as' es' s' hp hr
    obtain ⟨rest, rfl⟩ := hp
    refine (inv_of_run h0 hr ⟨fun a ha => hf.1 a (List.mem_append_left _ ha), ?_⟩).countsLive
    rw [FirstAccepts, List.map_append] at hf
    exact (List.nodup_append.mp hf.2).1

abbrev acceptOf (id : ℤ) : Act := .accept (Packet.set default id) fun _ => 0
abbrev disconnectOf (id : ℤ) : Act := .disconnect (Packet.set default id) fun _ => 0

theorem countsLive_along_iff_two_accepts :
    ∃ s es, machine.run (start (fun _ => default) 1 fun _ => 0) [acceptOf 0, acceptOf 1] =
        some (s, es) ∧
      (machine.Along (start (fun _ => default) 1 fun _ => 0) [acceptOf 0, acceptOf 1]
          (fun _ s => CountsLive s) ↔ FirstAccepts [acceptOf 0, acceptOf 1]) :=
  ⟨_, _, rfl, countsLive_along_iff (fun _ => default) 1 (fun _ => 0) _ _ _ rfl⟩

/-- A client that disconnected twice leaves the counter at `-1` and its slot connected. -/
theorem counter_below_zero :
    ∃ s es, machine.run (start (fun _ => default) 1 fun _ => 0)
        [acceptOf 0, disconnectOf 0, disconnectOf 0] = some (s, es) ∧
      s.server.currentClientCount = -1 ∧ s.server.connections = 1 ∧ ¬ CountsLive s := by
  refine ⟨_, _, rfl, rfl, rfl, fun h => ?_⟩
  exact absurd h.nonneg (by decide)

end Callbacks

end EchoIocp
