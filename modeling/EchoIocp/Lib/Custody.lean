import Mathlib.Data.Multiset.UnionInter
import Mathlib.Algebra.Order.Group.Multiset
import Mathlib.Data.Set.Insert
import Mathlib.Data.Finset.Card

/-- What is on its way for a member: before it joined, or after, with a payload. -/
inductive Token (ι β : Type*)
  | waiting (i : ι)
  | serving (i : ι) (payload : List β)

def Token.owner {ι β : Type*} : Token ι β → ι
  | .waiting i | .serving i _ => i

structure Custody (ι β : Type*) where
  tokens : Multiset (Token ι β)
  members : Set ι
  joined : Set ι

namespace Custody

variable {ι β : Type*}

inductive Label (ι β : Type*)
  | shed (lost : Multiset (Token ι β))
  | enter (i : ι)
  | join (i : ι)
  | load (i : ι) (payload : List β)
  | unload (i : ι) (payload : List β)

/-- Tokens move and get lost, members enter and join, payloads are loaded and unloaded. -/
inductive Step (c c' : Custody ι β) : Label ι β → Prop
  | shed (lost : Multiset (Token ι β)) (ht : c.tokens = lost + c'.tokens)
      (hm : c'.members = c.members) (hj : c'.joined = c.joined) : Step c c' (.shed lost)
  | enter (i : ι) (hi : i ∉ c.members) (ht : c'.tokens = {.waiting i} + c.tokens)
      (hm : c'.members = insert i c.members) (hj : c'.joined = c.joined) : Step c c' (.enter i)
  | join (i : ι) (rest : Multiset (Token ι β)) (ht : c.tokens = {.waiting i} + rest)
      (ht' : c'.tokens = {.serving i []} + rest) (hm : c'.members = c.members)
      (hj : c'.joined = insert i c.joined) : Step c c' (.join i)
  | load (i : ι) (payload : List β) (rest : Multiset (Token ι β))
      (ht : c.tokens = {.serving i []} + rest) (ht' : c'.tokens = {.serving i payload} + rest)
      (hm : c'.members = c.members) (hj : c'.joined = c.joined) : Step c c' (.load i payload)
  | unload (i : ι) (payload : List β) (rest : Multiset (Token ι β))
      (ht : c.tokens = {.serving i payload} + rest) (ht' : c'.tokens = {.serving i []} + rest)
      (hm : c'.members = c.members) (hj : c'.joined = c.joined) : Step c c' (.unload i payload)

def Label.Lossless (l : Label ι β) : Prop := ∀ lost, l = .shed lost → lost = 0

/-- At most one token for each member, on the right side of its joining. -/
structure Valid (c : Custody ι β) : Prop where
  nodup : (c.tokens.map Token.owner).Nodup
  waiting : ∀ i, .waiting i ∈ c.tokens → i ∈ c.members ∧ i ∉ c.joined
  serving : ∀ i p, .serving i p ∈ c.tokens → i ∈ c.joined
  joined_subset : c.joined ⊆ c.members

variable {c c' : Custody ι β} {l : Label ι β} {t : Token ι β} {rest : Multiset (Token ι β)}

theorem Step.stay (ht : c'.tokens = c.tokens) (hm : c'.members = c.members)
    (hj : c'.joined = c.joined) : Step c c' (.shed 0) :=
  .shed 0 (by rw [ht, zero_add]) hm hj

theorem Label.lossless_shed_zero : (Label.shed 0 : Label ι β).Lossless :=
  fun _ h => (Label.shed.inj h).symm

theorem Valid.alone (h : c.Valid) (ht : c.tokens = {t} + rest) :
    (rest.map Token.owner).Nodup ∧ ∀ t' ∈ rest, t'.owner ≠ t.owner := by
  have hn := h.nodup
  rw [ht, Multiset.singleton_add, Multiset.map_cons, Multiset.nodup_cons] at hn
  refine ⟨hn.2, fun t' ht' he => hn.1 ?_⟩
  rw [← he]
  exact Multiset.mem_map_of_mem _ ht'

theorem Valid.apart {u v : Multiset (Token ι β)} {t' : Token ι β} (h : c.Valid)
    (hc : c.tokens = u + v) (ht : t ∈ u) (ht' : t' ∈ v) : t.owner ≠ t'.owner := by
  have hn := h.nodup
  rw [hc, Multiset.map_add, Multiset.nodup_add] at hn
  intro he
  exact Multiset.disjoint_left.mp hn.2.2 (Multiset.mem_map_of_mem _ ht)
    (he ▸ Multiset.mem_map_of_mem _ ht')

theorem Valid.count_le [DecidableEq ι] (h : c.Valid) (i : ι) :
    c.tokens.countP (fun t => t.owner = i) ≤ 1 := by
  have hcount := Multiset.nodup_iff_count_le_one.mp h.nodup i
  rw [Multiset.count_map, ← Multiset.countP_eq_card_filter] at hcount
  simpa only [eq_comm] using hcount

theorem Valid.member (h : c.Valid) (ht : t ∈ c.tokens) : t.owner ∈ c.members := by
  cases t with
  | waiting i => exact (h.waiting i ht).1
  | serving i p => exact h.joined_subset (h.serving i p ht)

theorem Valid.card_le [DecidableEq ι] (h : c.Valid) {m : Finset ι} (hm : ∀ i ∈ c.members, i ∈ m) :
    c.tokens.card ≤ m.card := by
  have hsub : (c.tokens.map Token.owner).toFinset ⊆ m := by
    intro i hi
    obtain ⟨t, ht, rfl⟩ := Multiset.mem_map.mp (Multiset.mem_toFinset.mp hi)
    exact hm _ (h.member ht)
  have hcard := Finset.card_le_card hsub
  rwa [Multiset.toFinset_card_of_nodup h.nodup, Multiset.card_map] at hcard

theorem nodup_add_singleton (hn : (rest.map Token.owner).Nodup)
    (ho : ∀ t' ∈ rest, t'.owner ≠ t.owner) : ((({t} : Multiset _) + rest).map Token.owner).Nodup := by
  rw [Multiset.singleton_add, Multiset.map_cons, Multiset.nodup_cons]
  refine ⟨fun hm => ?_, hn⟩
  obtain ⟨t', ht', he⟩ := Multiset.mem_map.mp hm
  exact ho t' ht' he

theorem Valid.reload {i : ι} {p p' : List β} (h : c.Valid)
    (ht : c.tokens = {.serving i p} + rest) (ht' : c'.tokens = {.serving i p'} + rest)
    (hm : c'.members = c.members) (hj : c'.joined = c.joined) : c'.Valid := by
  obtain ⟨hn, ho⟩ := h.alone ht
  have hin (t : Token ι β) (hr : t ∈ rest) : t ∈ c.tokens := by simp [ht, hr]
  refine ⟨ht' ▸ nodup_add_singleton hn ho, fun k hk => ?_, fun k q hk => ?_,
    by rw [hj, hm]; exact h.joined_subset⟩
  · rw [ht', Multiset.mem_add, Multiset.mem_singleton] at hk
    rcases hk with hk | hk
    · exact absurd hk (by simp)
    · rw [hm, hj]
      exact h.waiting k (hin _ hk)
  · rw [ht', Multiset.mem_add, Multiset.mem_singleton] at hk
    rw [hj]
    rcases hk with hk | hk
    · obtain ⟨rfl, -⟩ := Token.serving.inj hk
      exact h.serving k p (by simp [ht])
    · exact h.serving k q (hin _ hk)

theorem Valid.step (h : c.Valid) (hs : Step c c' l) : c'.Valid := by
  cases hs with
  | load i p rest ht ht' hm hj => exact h.reload ht ht' hm hj
  | unload i p rest ht ht' hm hj => exact h.reload ht ht' hm hj
  | shed lost ht hm hj =>
    have hin (t : Token ι β) (hr : t ∈ c'.tokens) : t ∈ c.tokens := by simp [ht, hr]
    refine ⟨?_, fun k hk => ?_, fun k p hk => ?_, by rw [hj, hm]; exact h.joined_subset⟩
    · have hn := h.nodup
      rw [ht, Multiset.map_add] at hn
      exact (Multiset.nodup_add.mp hn).2.1
    · rw [hm, hj]
      exact h.waiting k (hin _ hk)
    · rw [hj]
      exact h.serving k p (hin _ hk)
  | enter i hi ht hm hj =>
    refine ⟨?_, fun k hk => ?_, fun k p hk => ?_, ?_⟩
    · -- every token is a member's, so one that enters has none
      rw [ht]
      refine nodup_add_singleton h.nodup fun t ht' he => hi ?_
      rw [show i = t.owner from he.symm]
      exact h.member ht'
    · rw [ht, Multiset.mem_add, Multiset.mem_singleton] at hk
      rw [hm, hj]
      rcases hk with hk | hk
      · obtain rfl := Token.waiting.inj hk
        exact ⟨Set.mem_insert _ _, fun hin => hi (h.joined_subset hin)⟩
      · exact ⟨Set.mem_insert_of_mem _ (h.waiting k hk).1, (h.waiting k hk).2⟩
    · rw [ht, Multiset.mem_add, Multiset.mem_singleton] at hk
      rw [hj]
      rcases hk with hk | hk
      · exact absurd hk (by simp)
      · exact h.serving k p hk
    · rw [hm, hj]
      exact h.joined_subset.trans (Set.subset_insert _ _)
  | join i rest ht ht' hm hj =>
    obtain ⟨hn, ho⟩ := h.alone ht
    have hin (t : Token ι β) (hr : t ∈ rest) : t ∈ c.tokens := by simp [ht, hr]
    refine ⟨ht' ▸ nodup_add_singleton hn ho, fun k hk => ?_, fun k p hk => ?_, ?_⟩
    · rw [ht', Multiset.mem_add, Multiset.mem_singleton] at hk
      rw [hm, hj]
      rcases hk with hk | hk
      · exact absurd hk (by simp)
      · refine ⟨(h.waiting k (hin _ hk)).1, ?_⟩
        rintro (rfl | hkj)
        · exact ho _ hk rfl
        · exact (h.waiting k (hin _ hk)).2 hkj
    · rw [ht', Multiset.mem_add, Multiset.mem_singleton] at hk
      rw [hj]
      rcases hk with hk | hk
      · obtain ⟨rfl, -⟩ := Token.serving.inj hk
        exact Set.mem_insert _ _
      · exact Set.mem_insert_of_mem _ (h.serving k p (hin _ hk))
    · rw [hm, hj]
      exact Set.insert_subset (h.waiting i (by simp [ht])).1 h.joined_subset

/-- Payloads are as long as those that are loaded. -/
theorem Step.payload_le {k : ℕ} (hs : Step c c' l)
    (h : ∀ i p, .serving i p ∈ c.tokens → p.length ≤ k)
    (hl : ∀ i p, l = .load i p → p.length ≤ k) : ∀ i p, .serving i p ∈ c'.tokens → p.length ≤ k := by
  intro j q hq
  cases hs with
  | shed lost ht =>
    apply h j
    rw [ht]
    exact Multiset.mem_add.mpr (.inr hq)
  | enter i hi ht =>
    rw [ht, Multiset.mem_add, Multiset.mem_singleton] at hq
    rcases hq with hq | hq
    · cases hq
    · exact h j q hq
  | join i rest ht ht' | unload i payload rest ht ht' =>
    rw [ht', Multiset.mem_add, Multiset.mem_singleton] at hq
    rcases hq with hq | hq
    · obtain ⟨rfl, rfl⟩ := Token.serving.inj hq
      exact Nat.zero_le k
    · apply h j
      rw [ht]
      exact Multiset.mem_add.mpr (.inr hq)
  | load i payload rest ht ht' =>
    rw [ht', Multiset.mem_add, Multiset.mem_singleton] at hq
    rcases hq with hq | hq
    · obtain ⟨rfl, rfl⟩ := Token.serving.inj hq
      exact hl j q rfl
    · apply h j
      rw [ht]
      exact Multiset.mem_add.mpr (.inr hq)

def Served (c : Custody ι β) : Prop := ∀ i ∈ c.members, ∃ t ∈ c.tokens, t.owner = i

theorem Served.reload {p p' : List β} {i : ι} (h : c.Served)
    (ht : c.tokens = {.serving i p} + rest) (ht' : c'.tokens = {.serving i p'} + rest)
    (hm : c'.members = c.members) : c'.Served := by
  intro k hk
  obtain ⟨t, hin, rfl⟩ := h k (hm ▸ hk)
  rw [ht, Multiset.mem_add, Multiset.mem_singleton] at hin
  rcases hin with rfl | hin
  · exact ⟨.serving i p', by simp [ht'], rfl⟩
  · exact ⟨t, by simp [ht', hin], rfl⟩

theorem Served.step (h : c.Served) (hs : Step c c' l) (hl : l.Lossless) : c'.Served := by
  cases hs with
  | load i p rest ht ht' hm hj => exact h.reload ht ht' hm
  | unload i p rest ht ht' hm hj => exact h.reload ht ht' hm
  | shed lost ht hm hj =>
    intro k hk
    obtain rfl := hl lost rfl
    obtain ⟨t, hin, rfl⟩ := h k (hm ▸ hk)
    exact ⟨t, by simpa [ht] using hin, rfl⟩
  | enter i hi ht hm hj =>
    intro k hk
    rw [hm] at hk
    rcases hk with rfl | hk
    · exact ⟨.waiting k, by simp [ht], rfl⟩
    · obtain ⟨t, hin, rfl⟩ := h k hk
      exact ⟨t, by simp [ht, hin], rfl⟩
  | join i rest ht ht' hm hj =>
    intro k hk
    obtain ⟨t, hin, rfl⟩ := h k (hm ▸ hk)
    rw [ht, Multiset.mem_add, Multiset.mem_singleton] at hin
    rcases hin with rfl | hin
    · exact ⟨.serving i [], by simp [ht'], rfl⟩
    · exact ⟨t, by simp [ht', hin], rfl⟩

theorem Valid.not_served {lost : Multiset (Token ι β)} (h : c.Valid)
    (hs : Step c c' (.shed lost)) (ht : t ∈ lost) : ¬ c'.Served := by
  cases hs with
  | shed _ htok hm hj =>
    intro hserved
    have hmem : t.owner ∈ c'.members := hm ▸ h.member (by simp [htok, ht])
    obtain ⟨t', hin, he⟩ := hserved _ hmem
    exact h.apart htok ht hin he.symm

variable [DecidableEq ι]

def Label.delivered (i : ι) : Label ι β → List β
  | .load j payload => if j = i then payload else []
  | _ => []

def Label.handed (i : ι) : Label ι β → List β
  | .unload j payload => if j = i then payload else []
  | _ => []

/-- Nothing is loaded or unloaded, and no payload is lost. -/
structure Label.Silent (l : Label ι β) : Prop where
  delivered : ∀ i, l.delivered i = []
  handed : ∀ i, l.handed i = []
  payload : ∀ lost, l = .shed lost → ∀ i p, .serving i p ∈ lost → p = []

theorem Label.Silent.shed {lost : Multiset (Token ι β)}
    (h : ∀ i p, .serving i p ∈ lost → p = []) : (Label.shed lost).Silent :=
  ⟨fun _ => rfl, fun _ => rfl, fun _ he => Label.shed.inj he ▸ h⟩

/-- A silent step, without a loss where `P` holds. -/
def Moves (c c' : Custody ι β) (P : Prop) : Prop :=
  ∃ l, Step c c' l ∧ l.Silent ∧ (P → l.Lossless)

theorem Moves.stay {P : Prop} (ht : c'.tokens = c.tokens) (hm : c'.members = c.members)
    (hj : c'.joined = c.joined) : Moves c c' P :=
  ⟨.shed 0, .stay ht hm hj, .shed (by simp), fun _ => Label.lossless_shed_zero⟩

theorem Moves.enter {P : Prop} (i : ι) (hi : i ∉ c.members)
    (ht : c'.tokens = {.waiting i} + c.tokens) (hm : c'.members = insert i c.members)
    (hj : c'.joined = c.joined) : Moves c c' P :=
  ⟨.enter i, .enter i hi ht hm hj, ⟨fun _ => rfl, fun _ => rfl, fun _ h => absurd h (by simp)⟩,
    fun _ _ h => absurd h (by simp)⟩

theorem Moves.join {P : Prop} (i : ι) (ht : c.tokens = {.waiting i} + rest)
    (ht' : c'.tokens = {.serving i []} + rest) (hm : c'.members = c.members)
    (hj : c'.joined = insert i c.joined) : Moves c c' P :=
  ⟨.join i, .join i rest ht ht' hm hj, ⟨fun _ => rfl, fun _ => rfl, fun _ h => absurd h (by simp)⟩,
    fun _ _ h => absurd h (by simp)⟩

theorem Moves.shed {P : Prop} (lost : Multiset (Token ι β)) (ht : c.tokens = lost + c'.tokens)
    (hm : c'.members = c.members) (hj : c'.joined = c.joined)
    (hl : ∀ i p, .serving i p ∈ lost → p = []) (hP : P → lost = 0) : Moves c c' P :=
  ⟨.shed lost, .shed lost ht hm hj, .shed hl, fun h _ he => Label.shed.inj he ▸ hP h⟩

theorem Moves.imp {P Q : Prop} (h : Moves c c' P) (hPQ : Q → P) : Moves c c' Q := by
  obtain ⟨l, hs, hsil, hl⟩ := h
  exact ⟨l, hs, hsil, fun hq => hl (hPQ hq)⟩

/-- A member's deliveries are what was handed out and the payload still on its way. -/
structure Ledger (delivered handed : ι → List β) (c : Custody ι β) : Prop where
  carried : ∀ i p, .serving i p ∈ c.tokens → delivered i = handed i ++ p
  settled : ∀ i, (∀ p, .serving i p ∉ c.tokens) → delivered i = handed i

theorem Ledger.reload {delivered handed more out : ι → List β} {i : ι} {p p' : List β}
    (h : Ledger delivered handed c) (hv : c.Valid) (ht : c.tokens = {.serving i p} + rest)
    (ht' : c'.tokens = {.serving i p'} + rest) (hi : p ++ more i = out i ++ p')
    (ho : ∀ k, k ≠ i → more k = [] ∧ out k = []) :
    Ledger (fun k => delivered k ++ more k) (fun k => handed k ++ out k) c' := by
  obtain ⟨-, hother⟩ := hv.alone ht
  have hkept {k : ι} (hk : k ≠ i) (q : List β) :
      .serving k q ∈ c'.tokens ↔ .serving k q ∈ c.tokens := by
    have hne : ∀ r, Token.serving k q ≠ .serving i r := fun r he => hk (Token.serving.inj he).1
    simp [ht, ht', hne]
  refine ⟨fun k q hq => ?_, fun k hk => ?_⟩
  · by_cases hki : k = i
    · subst hki
      have hq' : q = p' := by
        rw [ht', Multiset.mem_add, Multiset.mem_singleton] at hq
        rcases hq with hq | hq
        · exact (Token.serving.inj hq).2
        · exact (hother _ hq rfl).elim
      rw [h.carried k p (by simp [ht]), hq', List.append_assoc, hi, List.append_assoc]
    · rw [(ho k hki).1, (ho k hki).2, List.append_nil, List.append_nil]
      exact h.carried k q ((hkept hki q).mp hq)
  · by_cases hki : k = i
    · subst hki
      exact absurd (by simp [ht']) (hk p')
    · rw [(ho k hki).1, (ho k hki).2, List.append_nil, List.append_nil]
      exact h.settled k fun q hq => hk q ((hkept hki q).mpr hq)

theorem Ledger.step {delivered handed : ι → List β} (h : Ledger delivered handed c)
    (hv : c.Valid) (hs : Step c c' l)
    (hl : ∀ lost, l = .shed lost → ∀ i p, .serving i p ∈ lost → p = []) :
    Ledger (fun i => delivered i ++ l.delivered i) (fun i => handed i ++ l.handed i) c' := by
  cases hs with
  | load i p rest ht ht' hm hj =>
    refine h.reload hv ht ht' (by simp [Label.delivered, Label.handed]) fun k hk => ?_
    simp [Label.delivered, Label.handed, Ne.symm hk]
  | unload i p rest ht ht' hm hj =>
    refine h.reload hv ht ht' (by simp [Label.delivered, Label.handed]) fun k hk => ?_
    simp [Label.delivered, Label.handed, Ne.symm hk]
  | shed lost ht hm hj =>
    simp only [Label.delivered, Label.handed, List.append_nil]
    refine ⟨fun k p hp => h.carried k p (by simp [ht, hp]), fun k hk => ?_⟩
    -- a payload that is lost is empty, so the account is settled all the same
    by_cases hlost : ∃ p, .serving k p ∈ lost
    · obtain ⟨p, hp⟩ := hlost
      rw [h.carried k p (by simp [ht, hp]), hl lost rfl k p hp, List.append_nil]
    · refine h.settled k fun p hp => ?_
      rw [ht, Multiset.mem_add] at hp
      rcases hp with hp | hp
      · exact hlost ⟨p, hp⟩
      · exact hk p hp
  | enter i hi ht hm hj =>
    simp only [Label.delivered, Label.handed, List.append_nil]
    refine ⟨fun k p hp => h.carried k p ?_, fun k hk => h.settled k fun p hp => hk p ?_⟩
    · simpa [ht] using hp
    · simp [ht, hp]
  | join i rest ht ht' hm hj =>
    obtain ⟨-, hother⟩ := hv.alone ht
    -- its one token was waiting, so nothing was on its way to `i`
    have hsettled : delivered i = handed i := by
      refine h.settled i fun p hp => ?_
      rw [ht, Multiset.mem_add, Multiset.mem_singleton] at hp
      rcases hp with hp | hp
      · exact absurd hp (by simp)
      · exact (hother _ hp rfl).elim
    simp only [Label.delivered, Label.handed, List.append_nil]
    refine ⟨fun k p hp => ?_, fun k hk => h.settled k fun p hp => hk p ?_⟩
    · rw [ht', Multiset.mem_add, Multiset.mem_singleton] at hp
      rcases hp with hp | hp
      · obtain ⟨rfl, rfl⟩ := Token.serving.inj hp
        rw [hsettled, List.append_nil]
      · exact h.carried k p (by simp [ht, hp])
    · have hr : .serving k p ∈ rest := by simpa [ht] using hp
      simp [ht', hr]

end Custody
