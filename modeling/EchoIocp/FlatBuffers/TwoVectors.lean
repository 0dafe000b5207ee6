import EchoIocp.FlatBuffers.VectorDownward
import EchoIocp.Lib.Machine

namespace EchoIocp

open VectorDownward

namespace VectorDownward

/-- The calls a builder makes. -/
inductive Op
  | push (bytes : List UInt8)
  | fill (zeroPadBytes : ℕ)
  | scratchPush (bytes : List UInt8)
  | pop (bytesToRemove : ℕ)
  | scratchPop (bytesToRemove : ℕ)
  | clearScratch
  | clear
  | reset
  /-- `WriteScalar` at `data_at(offset)`. -/
  | writeAt (offset : ℕ) (bytes : List UInt8)
  /-- `ReadScalar` at `data_at(offset)`. -/
  | readAt (offset len : ℕ)
  /-- `ReadScalar` at `scratch_data() + pos`. -/
  | scratchReadAt (pos len : ℕ)

def perform (v : VectorDownward) : Op → Option (VectorDownward × List UInt8)
  | .push bytes => (v.push bytes).map fun w => (w, [])
  | .fill zeroPadBytes => (v.fill zeroPadBytes).map fun w => (w, [])
  | .scratchPush bytes => (v.scratchPush bytes).map fun w => (w, [])
  | .pop bytesToRemove => (v.pop bytesToRemove).map fun w => (w, [])
  | .scratchPop bytesToRemove => (v.scratchPop bytesToRemove).map fun w => (w, [])
  | .clearScratch => some (v.clearScratch, [])
  | .clear => some (v.clear, [])
  | .reset => some (v.reset, [])
  | .writeAt offset bytes => (v.dataAt offset).bind fun pos => (v.write pos bytes).map fun w => (w, [])
  | .readAt offset len => (v.dataAt offset).bind fun pos => (v.read pos len).map fun bytes => (v, bytes)
  | .scratchReadAt pos len => (v.read pos len).map fun bytes => (v, bytes)

/-- After each call its `size()` and the bytes it read are observed. -/
def machine : Machine VectorDownward Op (ℕ × List UInt8) where
  step v op := (v.perform op).map fun r => (r.1, [(r.1.size, r.2)])

end VectorDownward

/-- The data, the last pushed first, and the scratch pad. -/
structure TwoVectors where
  data : List UInt8
  pad : List UInt8
  deriving DecidableEq

namespace TwoVectors

variable (t : TwoVectors)

def empty : TwoVectors := ⟨[], []⟩

/-- Nothing more fits once the data have reached the maximum. -/
def push (bytes : List UInt8) : Option TwoVectors :=
  if bytes = [] then some t
  else if t.data.length < maxBufferSize then some { t with data := bytes ++ t.data } else none

def scratchPush (bytes : List UInt8) : Option TwoVectors :=
  if t.data.length < maxBufferSize then some { t with pad := t.pad ++ bytes } else none

def pop (bytesToRemove : ℕ) : Option TwoVectors :=
  if bytesToRemove ≤ t.data.length then some { t with data := t.data.drop bytesToRemove } else none

def scratchPop (bytesToRemove : ℕ) : Option TwoVectors :=
  if bytesToRemove ≤ t.pad.length then
    some { t with pad := t.pad.take (t.pad.length - bytesToRemove) }
  else none

def perform : Op → Option (TwoVectors × List UInt8)
  | .push bytes => (t.push bytes).map fun u => (u, [])
  | .fill zeroPadBytes => (t.push (List.replicate zeroPadBytes 0)).map fun u => (u, [])
  | .scratchPush bytes => (t.scratchPush bytes).map fun u => (u, [])
  | .pop bytesToRemove => (t.pop bytesToRemove).map fun u => (u, [])
  | .scratchPop bytesToRemove => (t.scratchPop bytesToRemove).map fun u => (u, [])
  | .clearScratch => some ({ t with pad := [] }, [])
  | .clear => some (empty, [])
  | .reset => some (empty, [])
  | .writeAt offset bytes =>
    some ({ t with data := t.data.overwrite (t.data.length - offset) bytes }, [])
  | .readAt offset len => some (t, (t.data.drop (t.data.length - offset)).take len)
  | .scratchReadAt pos len => some (t, (t.pad.drop pos).take len)

def machine : Machine TwoVectors Op (ℕ × List UInt8) where
  step t op := (t.perform op).map fun r => (r.1, [(r.1.data.length, r.2)])

/-- No push is larger than the maximum, the scratch pad stays below 4 GiB, and what is read or
overwritten is there. -/
def Room (t : TwoVectors) : Op → Prop
  | .push bytes => bytes.length ≤ 2 ^ 31
  | .fill zeroPadBytes => zeroPadBytes ≤ 2 ^ 31
  | .scratchPush bytes => t.pad.length + bytes.length < 2 ^ 32
  | .writeAt offset bytes => bytes.length ≤ offset ∧ offset ≤ t.data.length
  | .readAt offset len => len ≤ offset ∧ offset ≤ t.data.length
  | .scratchReadAt pos len => pos + len ≤ t.pad.length
  | _ => True

instance (t : TwoVectors) : DecidablePred t.Room
  | .push bytes => inferInstanceAs (Decidable (bytes.length ≤ 2 ^ 31))
  | .fill zeroPadBytes => inferInstanceAs (Decidable (zeroPadBytes ≤ 2 ^ 31))
  | .scratchPush bytes => inferInstanceAs (Decidable (t.pad.length + bytes.length < 2 ^ 32))
  | .writeAt offset bytes =>
    inferInstanceAs (Decidable (bytes.length ≤ offset ∧ offset ≤ t.data.length))
  | .readAt offset len => inferInstanceAs (Decidable (len ≤ offset ∧ offset ≤ t.data.length))
  | .scratchReadAt pos len => inferInstanceAs (Decidable (pos + len ≤ t.pad.length))
  | .pop _ | .scratchPop _ | .clearScratch | .clear | .reset => inferInstanceAs (Decidable True)

end TwoVectors

namespace VectorDownward

variable {v : VectorDownward} {data pad bytes : List UInt8} {k : ℕ} {t : TwoVectors} {op : Op}

theorem ensureSpace_full (h : v.Shows data pad) (hlen : data.length < 2 ^ 32)
    (hfull : maxBufferSize ≤ data.length) (len : ℕ) : v.ensureSpace len = none := by
  have hlt := not_lt.mpr hfull
  unfold ensureSpace
  dsimp only
  split_ifs with hroom hmax hmax
  · have hw := h.reallocate hlen len
    rw [hw.size hlen, hw.max] at hmax
    exact absurd hmax hlt
  · rfl
  · rw [h.size hlen, h.max] at hmax
    exact absurd hmax hlt
  · rfl

theorem push_nil (v : VectorDownward) : v.push [] = some v := by
  have hbuf : v.buf.overwrite v.cur [] = v.buf := by simp [List.overwrite]
  change v.write v.cur [] = some v
  refine (dif_pos v.cur_le).trans ?_
  congr 1
  cases v
  congr 1

theorem push_full (h : v.Shows data pad) (hlen : data.length < 2 ^ 32)
    (hfull : maxBufferSize ≤ data.length) (hne : bytes ≠ []) : v.push bytes = none := by
  have hpos : bytes.length ≠ 0 := fun hzero => hne (List.length_eq_zero_iff.mp hzero)
  unfold push makeSpace
  rw [if_neg hpos, ensureSpace_full h hlen hfull]
  rfl

theorem scratchPush_full (h : v.Shows data pad) (hlen : data.length < 2 ^ 32)
    (hfull : maxBufferSize ≤ data.length) (bytes : List UInt8) : v.scratchPush bytes = none := by
  unfold scratchPush
  rw [ensureSpace_full h hlen hfull]
  rfl

theorem pop_none (h : v.Shows data pad) (hk : data.length < k) : v.pop k = none := by
  have hc := h.cur
  unfold pop
  exact dif_neg (by omega)

theorem scratchPop_none (h : v.Shows data pad) (hk : pad.length < k) : v.scratchPop k = none := by
  have hs := h.scratch
  unfold scratchPop
  exact if_neg (by omega)

/-- The block holds the two vectors. -/
structure Implements (v : VectorDownward) (t : TwoVectors) : Prop where
  shows : v.Shows t.data t.pad
  lt : t.data.length < 2 ^ 32

theorem push_matches (h : v.Implements t) (hb : bytes.length ≤ 2 ^ 31) :
    Option.Rel Implements (v.push bytes) (t.push bytes) := by
  have hcap : maxBufferSize = 2 ^ 31 - 1 := rfl
  unfold TwoVectors.push
  split_ifs with hnil hlt
  · rw [hnil, push_nil]
    exact .some h
  · obtain ⟨w, hw, hs⟩ := push_shows h.shows hlt bytes
    rw [hw]
    refine .some ⟨hs, ?_⟩
    change (bytes ++ t.data).length < 2 ^ 32
    rw [List.length_append]
    omega
  · rw [push_full h.shows h.lt (not_lt.mp hlt) hnil]
    exact .none

theorem scratchPush_matches (h : v.Implements t) (hp : t.pad.length + bytes.length < 2 ^ 32) :
    Option.Rel Implements (v.scratchPush bytes) (t.scratchPush bytes) := by
  unfold TwoVectors.scratchPush
  split_ifs with hlt
  · obtain ⟨w, hw, hs⟩ := scratchPush_shows h.shows hlt hp
    rw [hw]
    exact .some ⟨hs, h.lt⟩
  · rw [scratchPush_full h.shows h.lt (not_lt.mp hlt)]
    exact .none

theorem pop_matches (h : v.Implements t) (k : ℕ) :
    Option.Rel Implements (v.pop k) (t.pop k) := by
  unfold TwoVectors.pop
  split_ifs with hk
  · obtain ⟨w, hw, hs⟩ := pop_shows h.shows hk
    rw [hw]
    refine .some ⟨hs, lt_of_le_of_lt ?_ h.lt⟩
    change (t.data.drop k).length ≤ _
    rw [List.length_drop]
    exact Nat.sub_le _ _
  · rw [pop_none h.shows (not_le.mp hk)]
    exact .none

theorem scratchPop_matches (h : v.Implements t) (k : ℕ) :
    Option.Rel Implements (v.scratchPop k) (t.scratchPop k) := by
  unfold TwoVectors.scratchPop
  split_ifs with hk
  · obtain ⟨w, hw, hs⟩ := scratchPop_shows h.shows hk
    rw [hw]
    exact .some ⟨hs, h.lt⟩
  · rw [scratchPop_none h.shows (not_le.mp hk)]
    exact .none

/-- A call fails in both, or both read the same. -/
def Performs (r : VectorDownward × List UInt8) (q : TwoVectors × List UInt8) : Prop :=
  r.1.Implements q.1 ∧ r.2 = q.2

theorem performs_of_rel {x : Option VectorDownward} {y : Option TwoVectors}
    (h : Option.Rel Implements x y) :
    Option.Rel Performs (x.map fun w => (w, [])) (y.map fun u => (u, [])) := by
  cases h with
  | none => exact .none
  | some h => exact .some ⟨h, rfl⟩

theorem perform_matches (h : v.Implements t) (hroom : t.Room op) :
    Option.Rel Performs (v.perform op) (t.perform op) := by
  cases op with
  | push bytes => exact performs_of_rel (push_matches h hroom)
  | fill n => exact performs_of_rel (push_matches h (List.length_replicate.trans_le hroom))
  | scratchPush bytes => exact performs_of_rel (scratchPush_matches h hroom)
  | pop k => exact performs_of_rel (pop_matches h k)
  | scratchPop k => exact performs_of_rel (scratchPop_matches h k)
  | clearScratch => exact .some ⟨⟨clearScratch_shows h.shows, h.lt⟩, rfl⟩
  | clear => exact .some ⟨⟨clear_shows h.shows, Nat.two_pow_pos 32⟩, rfl⟩
  | reset => exact .some ⟨⟨reset_shows h.shows, Nat.two_pow_pos 32⟩, rfl⟩
  | writeAt offset bytes =>
    obtain ⟨hb, ho⟩ := hroom
    have hin : t.data.length - offset + bytes.length ≤ t.data.length := by omega
    obtain ⟨w, hw, hs, -⟩ := write_shows h.shows hin rfl
    dsimp only [perform]
    rw [dataAt_shows h.shows ho, Option.bind_some, hw]
    refine .some ⟨⟨hs, ?_⟩, rfl⟩
    change (t.data.overwrite (t.data.length - offset) bytes).length < _
    rw [List.length_overwrite hin]
    exact h.lt
  | readAt offset len =>
    obtain ⟨hb, ho⟩ := hroom
    dsimp only [perform]
    rw [dataAt_shows h.shows ho, Option.bind_some, read_data h.shows (by omega)]
    exact .some ⟨h, rfl⟩
  | scratchReadAt pos len =>
    dsimp only [perform]
    rw [read_pad h.shows hroom]
    exact .some ⟨h, rfl⟩

theorem step_matches (h : v.Implements t) (hroom : t.Room op) :
    Machine.Matches Implements (machine.step v op) (TwoVectors.machine.step t op) := by
  have hone := perform_matches h hroom
  unfold machine TwoVectors.machine
  dsimp only
  generalize v.perform op = x at hone ⊢
  generalize t.perform op = y at hone ⊢
  cases hone with
  | none => exact .none
  | some hr =>
    have hsize := hr.1.shows.size hr.1.lt
    have hread := hr.2
    refine .some ⟨hr.1, ?_⟩
    dsimp only
    rw [hsize, hread]

/-- Whatever the allocator, the initial size and the alignment, a run of calls fails or gives
what it does on two vectors. -/
theorem run_eq_twoVectors (allocator : Allocator) (initialSize bufferMinalign : ℕ)
    (hmin : 0 < bufferMinalign) (ops : List Op)
    (hroom : TwoVectors.machine.Steps .empty ops TwoVectors.Room) :
    (machine.run (construct allocator initialSize maxBufferSize bufferMinalign hmin) ops).map
      (fun r => ((⟨r.1.data, r.1.scratchPad⟩ : TwoVectors), r.2)) =
      TwoVectors.machine.run .empty ops := by
  have hstart : (construct allocator initialSize maxBufferSize bufferMinalign hmin).Implements
      .empty := ⟨construct_shows allocator initialSize bufferMinalign hmin, Nat.two_pow_pos 32⟩
  have hrun := Machine.run_matches (M := machine) (N := TwoVectors.machine) (R := Implements)
    (fun _ _ _ => step_matches) hstart hroom
  generalize machine.run _ ops = x at hrun ⊢
  generalize TwoVectors.machine.run .empty ops = y at hrun ⊢
  cases hrun with
  | none => rfl
  | some hr =>
    rw [Option.map_some, hr.1.shows.data, hr.1.shows.pad, hr.2]

/-- The block grows under data and a scratch pad that stay. -/
def growingCalls : List Op :=
  [.push [1, 2, 3], .scratchPush [7, 7, 7, 7], .fill 2, .push [4, 5, 6, 7, 8, 9], .readAt 3 2, .pop 7,
    .writeAt 2 [8], .scratchReadAt 1 2, .scratchPop 3]

theorem run_eq_twoVectors_growing :
    (machine.run (construct ⟨fun n => List.replicate n 170, fun _ => List.length_replicate⟩ 1
      maxBufferSize 8 (by decide)) growingCalls).map
        (fun r => ((⟨r.1.data, r.1.scratchPad⟩ : TwoVectors), r.2)) =
      some (⟨[0, 1, 8, 3], [7]⟩, [(3, []), (3, []), (5, []), (11, []), (11, [1, 2]), (4, []), (4, []),
        (4, [7, 7]), (4, [])]) :=
  (run_eq_twoVectors _ 1 8 (by decide) growingCalls (Machine.steps_of_checks (by decide))).trans
    (by decide)

end VectorDownward

end EchoIocp
