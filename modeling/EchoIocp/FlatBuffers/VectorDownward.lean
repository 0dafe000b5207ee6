import EchoIocp.Lib.Downward
import EchoIocp.Lib.LittleEndian

namespace EchoIocp

/-- What `allocate` returns is not initialised. -/
structure Allocator where
  allocate : ℕ → List UInt8
  length_allocate : ∀ size, (allocate size).length = size

def memcpyDownward (old new : List UInt8) (inUseBack inUseFront : ℕ) : List UInt8 :=
  (new.overwrite (new.length - inUseBack) (old.rtake inUseBack)).overwrite 0 (old.take inUseFront)

/-- Pointers into `buf` are distances from its start; a null `buf` is an empty block. -/
structure VectorDownward where
  allocator : Allocator
  initialSize : ℕ
  maxSize : ℕ
  bufferMinalign : ℕ
  buf : List UInt8
  cur : ℕ
  scratch : ℕ
  /-- A `uoffset_t`. -/
  size : ℕ
  minalign_pos : 0 < bufferMinalign
  scratch_le : scratch ≤ cur
  cur_le : cur ≤ buf.length
  size_eq : size = (buf.length - cur) % 2 ^ 32

namespace VectorDownward

variable (v : VectorDownward)

def reserved : ℕ := v.buf.length

/-- `vector_downward(initial_size, allocator, false, buffer_minalign)`. -/
def construct (allocator : Allocator) (initialSize maxSize bufferMinalign : ℕ)
    (h : 0 < bufferMinalign) : VectorDownward where
  allocator := allocator
  initialSize := initialSize
  maxSize := maxSize
  bufferMinalign := bufferMinalign
  buf := []
  cur := 0
  scratch := 0
  size := 0
  minalign_pos := h
  scratch_le := le_rfl
  cur_le := le_rfl
  size_eq := rfl

def unusedBufferSize : ℕ := (v.cur - v.scratch) % 2 ^ 32

def scratchSize : ℕ := v.scratch % 2 ^ 32

/-- The `reserved_` that `reallocate(len)` computes; `buffer_minalign_` is a power of two. -/
def grown (len : ℕ) : ℕ :=
  (v.reserved + max len (if v.reserved ≠ 0 then v.reserved / 2 else v.initialSize) +
    v.bufferMinalign - 1) / v.bufferMinalign * v.bufferMinalign

theorem le_grown (len : ℕ) : v.reserved + len ≤ v.grown len := by
  have hm := v.minalign_pos
  have hdiv := Nat.div_add_mod (v.reserved +
    max len (if v.reserved ≠ 0 then v.reserved / 2 else v.initialSize) + v.bufferMinalign - 1)
    v.bufferMinalign
  have hlt := Nat.mod_lt (v.reserved +
    max len (if v.reserved ≠ 0 then v.reserved / 2 else v.initialSize) + v.bufferMinalign - 1) hm
  have hmax := le_max_left len (if v.reserved ≠ 0 then v.reserved / 2 else v.initialSize)
  unfold grown
  rw [Nat.mul_comm] at hdiv
  omega

theorem size_le : v.size ≤ v.reserved - v.cur := by
  rw [v.size_eq]
  exact Nat.mod_le _ _

theorem scratchSize_le : v.scratchSize ≤ v.scratch := Nat.mod_le _ _

theorem length_memcpyDownward {old new : List UInt8} {inUseBack inUseFront : ℕ}
    (h : inUseFront + inUseBack ≤ old.length) (hn : old.length ≤ new.length) :
    (memcpyDownward old new inUseBack inUseFront).length = new.length := by
  have hback : (old.rtake inUseBack).length = inUseBack := List.length_rtake (by omega)
  have hfront : (old.take inUseFront).length = inUseFront := List.length_take_of_le (by omega)
  have hfirst : (new.overwrite (new.length - inUseBack) (old.rtake inUseBack)).length =
      new.length := List.length_overwrite (by omega)
  unfold memcpyDownward
  rw [List.length_overwrite (by omega), hfirst]

theorem length_reallocated (len : ℕ) :
    (memcpyDownward v.buf (v.allocator.allocate (v.grown len)) v.size v.scratchSize).length =
      v.grown len := by
  have hg := v.le_grown len
  have hs := v.size_le
  have h0 := v.scratchSize_le
  have h1 := v.scratch_le
  have h2 := v.cur_le
  unfold reserved at hg hs
  rw [length_memcpyDownward, v.allocator.length_allocate]
  · omega
  · rw [v.allocator.length_allocate]
    omega

def reallocate (len : ℕ) : VectorDownward := { v with
  buf := memcpyDownward v.buf (v.allocator.allocate (v.grown len)) v.size v.scratchSize
  cur := v.grown len - v.size
  scratch := v.scratchSize
  scratch_le := by
    have hg := v.le_grown len
    have hs := v.size_le
    have h0 := v.scratchSize_le
    have h1 := v.scratch_le
    have h2 := v.cur_le
    unfold reserved at hg hs
    omega
  cur_le := (Nat.sub_le _ _).trans (v.length_reallocated len).ge
  size_eq := by
    have hg := v.le_grown len
    have hs := v.size_le
    have he := v.size_eq
    unfold reserved at hg hs
    rw [v.length_reallocated]
    omega }

/-- `none` when the assertion fails. -/
def ensureSpace (len : ℕ) : Option { w : VectorDownward // len ≤ w.cur - w.scratch } :=
  let w : { w : VectorDownward // len ≤ w.cur - w.scratch } :=
    if h : v.unusedBufferSize < len then
      ⟨v.reallocate len, by
        have hg := v.le_grown len
        have hs := v.size_le
        have h0 := v.scratchSize_le
        have h1 := v.scratch_le
        have h2 := v.cur_le
        unfold reserved at hg hs
        change len ≤ v.grown len - v.size - v.scratchSize
        omega⟩
    else
      ⟨v, by
        have hmod := Nat.mod_le (v.cur - v.scratch) (2 ^ 32)
        unfold unusedBufferSize at h
        omega⟩
  if w.1.size < w.1.maxSize then some w else none

def makeSpace (len : ℕ) : Option VectorDownward :=
  if len = 0 then some v
  else (v.ensureSpace len).map fun w => { w.1 with
    cur := w.1.cur - len
    size := (w.1.size + len) % 2 ^ 32
    scratch_le := by
      have h := w.2
      have h1 := w.1.scratch_le
      omega
    cur_le := (Nat.sub_le _ _).trans w.1.cur_le
    size_eq := by
      have h := w.2
      have h1 := w.1.scratch_le
      have h2 := w.1.cur_le
      have he := w.1.size_eq
      omega }

/-- Bytes written at `pos`; `none` is a write outside the block. -/
def write (pos : ℕ) (bytes : List UInt8) : Option VectorDownward :=
  if h : pos + bytes.length ≤ v.reserved then
    some { v with
      buf := v.buf.overwrite pos bytes
      cur_le := by rw [List.length_overwrite h]; exact v.cur_le
      size_eq := by rw [List.length_overwrite h]; exact v.size_eq }
  else none

def read (pos len : ℕ) : Option (List UInt8) :=
  if pos + len ≤ v.reserved then some ((v.buf.drop pos).take len) else none

/-- `push`, `push_small` and `fill`: `make_space` and the bytes put there. -/
def push (bytes : List UInt8) : Option VectorDownward :=
  (v.makeSpace bytes.length).bind fun w => w.write w.cur bytes

def fill (zeroPadBytes : ℕ) : Option VectorDownward := v.push (List.replicate zeroPadBytes 0)

def scratchPush (bytes : List UInt8) : Option VectorDownward :=
  (v.ensureSpace bytes.length).bind fun w => (w.1.write w.1.scratch bytes).bind fun u =>
    if h : u.scratch + bytes.length ≤ u.cur then
      some { u with scratch := u.scratch + bytes.length, scratch_le := h }
    else none

/-- `none` when `cur_` would leave the block. -/
def pop (bytesToRemove : ℕ) : Option VectorDownward :=
  if h : v.cur + bytesToRemove ≤ v.reserved then
    some { v with
      cur := v.cur + bytesToRemove
      size := (v.size + (2 ^ 32 - bytesToRemove % 2 ^ 32)) % 2 ^ 32
      scratch_le := v.scratch_le.trans (Nat.le_add_right _ _)
      cur_le := h
      size_eq := by
        have he := v.size_eq
        unfold reserved at h
        omega }
  else none

def scratchPop (bytesToRemove : ℕ) : Option VectorDownward :=
  if bytesToRemove ≤ v.scratch then
    some { v with
      scratch := v.scratch - bytesToRemove
      scratch_le := (Nat.sub_le _ _).trans v.scratch_le }
  else none

def clearScratch : VectorDownward := { v with scratch := 0, scratch_le := Nat.zero_le _ }

def clear : VectorDownward := { v with
  cur := v.reserved
  size := 0
  scratch := 0
  scratch_le := Nat.zero_le _
  cur_le := le_rfl
  size_eq := by simp [reserved] }

/-- The block is given back. -/
def reset : VectorDownward := { v with
  buf := []
  cur := 0
  scratch := 0
  size := 0
  scratch_le := le_rfl
  cur_le := le_rfl
  size_eq := rfl }

/-- `none` when the address is below the block. -/
def dataAt (offset : ℕ) : Option ℕ :=
  if offset ≤ v.reserved then some (v.reserved - offset) else none

/-- What the vector holds, the last pushed first. -/
def data : List UInt8 := v.buf.drop v.cur

def scratchPad : List UInt8 := v.buf.take v.scratch

/-- `FLATBUFFERS_MAX_BUFFER_SIZE`. -/
abbrev maxBufferSize : ℕ := 2 ^ 31 - 1

theorem maxBufferSize_lt : maxBufferSize < 2 ^ 32 := by decide

structure Shows (v : VectorDownward) (data pad : List UInt8) : Prop where
  max : v.maxSize = maxBufferSize
  data : v.data = data
  pad : v.scratchPad = pad
  /-- `scratch_size()` is cut to 32 bits. -/
  scratch_lt : v.scratch < 2 ^ 32

variable {v} {w : VectorDownward} {data pad bytes : List UInt8} {i k n o pos : ℕ}

theorem length_data (v : VectorDownward) : v.data.length = v.reserved - v.cur := List.length_drop

theorem length_scratchPad (v : VectorDownward) : v.scratchPad.length = v.scratch := by
  have h1 := v.scratch_le
  have h2 := v.cur_le
  exact List.length_take_of_le (by omega)

theorem size_of_lt (h : v.data.length < 2 ^ 32) : v.size = v.data.length := by
  rw [v.size_eq, v.length_data]
  rw [v.length_data] at h
  exact Nat.mod_eq_of_lt h

theorem Shows.size (h : v.Shows data pad) (hlen : data.length < 2 ^ 32) : v.size = data.length := by
  rw [← h.data] at hlen ⊢
  exact size_of_lt hlen

theorem Shows.cur (h : v.Shows data pad) : v.cur + data.length = v.reserved := by
  have hc := v.cur_le
  rw [← h.data, length_data]
  unfold reserved
  omega

theorem Shows.scratch (h : v.Shows data pad) : v.scratch = pad.length := by
  rw [← h.pad, length_scratchPad]

theorem Shows.scratchSize (h : v.Shows data pad) : v.scratchSize = v.scratch :=
  Nat.mod_eq_of_lt h.scratch_lt

theorem Shows.reallocate (h : v.Shows data pad) (hlen : data.length < 2 ^ 32) (len : ℕ) :
    (v.reallocate len).Shows data pad := by
  have hg := v.le_grown len
  have hs := h.size hlen
  have hc := h.cur
  have h1 := v.scratch_le
  unfold reserved at hg hc
  have hback : (v.buf.rtake v.size).length = v.size := List.length_rtake (by omega)
  have hfront : (v.buf.take v.scratch).length = v.scratch := List.length_take_of_le (by omega)
  have halloc := v.allocator.length_allocate (v.grown len)
  have hnew : ((v.allocator.allocate (v.grown len)).overwrite
      ((v.allocator.allocate (v.grown len)).length - v.size) (v.buf.rtake v.size)).length =
      v.grown len := by
    rw [List.length_overwrite (by omega), halloc]
  refine ⟨h.max, ?_, ?_, Nat.mod_lt _ (Nat.two_pow_pos 32)⟩
  · change (memcpyDownward v.buf (v.allocator.allocate (v.grown len)) v.size v.scratchSize).drop
      (v.grown len - v.size) = data
    rw [h.scratchSize]
    unfold memcpyDownward
    rw [List.drop_overwrite_of_le (by omega) (by rw [hnew]; omega), halloc,
      List.drop_overwrite_self (by omega)]
    rw [← h.data, VectorDownward.data, List.rtake]
    congr 1
    omega
  · change (memcpyDownward v.buf (v.allocator.allocate (v.grown len)) v.size v.scratchSize).take
      v.scratchSize = pad
    rw [h.scratchSize]
    unfold memcpyDownward
    rw [List.overwrite_zero, List.take_append_of_le_length hfront.ge, List.take_take, Nat.min_self]
    exact h.pad

theorem ensureSpace_shows (h : v.Shows data pad) (hlen : data.length < maxBufferSize) (len : ℕ) :
    ∃ w, v.ensureSpace len = some w ∧ w.1.Shows data pad := by
  have hlt : data.length < 2 ^ 32 := hlen.trans maxBufferSize_lt
  unfold ensureSpace
  dsimp only
  split_ifs with hroom hmax hmax
  · exact ⟨_, rfl, h.reallocate hlt len⟩
  · have hw := h.reallocate hlt len
    rw [hw.size hlt, hw.max] at hmax
    exact absurd hlen hmax
  · exact ⟨_, rfl, h⟩
  · rw [h.size hlt, h.max] at hmax
    exact absurd hlen hmax

theorem write_shows (h : v.Shows data pad) (hi : i + bytes.length ≤ data.length)
    (hpos : pos = v.cur + i) :
    ∃ w, v.write pos bytes = some w ∧ w.Shows (data.overwrite i bytes) pad ∧ w.cur = v.cur := by
  have hc := h.cur
  have h1 := v.scratch_le
  have hle : pos + bytes.length ≤ v.reserved := by omega
  have hpad : (v.buf.overwrite pos bytes).take v.scratch = v.buf.take v.scratch :=
    List.take_overwrite_of_le bytes (by omega) ((Nat.le_add_right _ _).trans hle)
  have hdata : (v.buf.overwrite pos bytes).drop v.cur =
      (v.buf.drop v.cur).overwrite (pos - v.cur) bytes :=
    List.drop_overwrite_of_ge bytes (by omega) ((Nat.le_add_right _ _).trans hle)
  unfold write
  rw [dif_pos hle]
  refine ⟨_, rfl, ⟨h.max, hdata.trans ?_, hpad.trans h.pad, h.scratch_lt⟩, rfl⟩
  rw [hpos, Nat.add_sub_cancel_left]
  exact congrArg (List.overwrite · i bytes) h.data

/-- What `make_space` makes room for is not initialised. -/
theorem makeSpace_shows (h : v.Shows data pad) (hlen : data.length < maxBufferSize) (k : ℕ) :
    ∃ w junk, v.makeSpace k = some w ∧ junk.length = k ∧ w.Shows (junk ++ data) pad := by
  unfold makeSpace
  split_ifs with hk
  · exact ⟨v, [], rfl, hk.symm, h⟩
  · obtain ⟨u, hu, hs⟩ := ensureSpace_shows h hlen k
    have hroom := u.2
    have h1 := u.1.scratch_le
    have h2 := u.1.cur_le
    rw [hu]
    refine ⟨_, (u.1.buf.drop (u.1.cur - k)).take k, rfl, ?_, hs.max, ?_, hs.pad, hs.scratch_lt⟩
    · rw [List.length_take, List.length_drop]
      omega
    · have hsplit : (u.1.buf.drop (u.1.cur - k)).drop k = u.1.buf.drop u.1.cur := by
        rw [List.drop_drop]
        congr 1
        omega
      change u.1.buf.drop (u.1.cur - k) = _
      rw [← hs.data, VectorDownward.data, ← hsplit, List.take_append_drop]

theorem push_shows (h : v.Shows data pad) (hlen : data.length < maxBufferSize)
    (bytes : List UInt8) : ∃ w, v.push bytes = some w ∧ w.Shows (bytes ++ data) pad := by
  obtain ⟨u, junk, hu, hjunk, hs⟩ := makeSpace_shows h hlen bytes.length
  have hroom : 0 + bytes.length ≤ (junk ++ data).length := by
    rw [List.length_append]
    omega
  obtain ⟨w, hw, hs, -⟩ := write_shows hs hroom rfl
  rw [List.overwrite_zero, ← hjunk, List.drop_left] at hs
  refine ⟨w, ?_, hs⟩
  unfold push
  rw [hu]
  exact hw

theorem scratchPush_shows (h : v.Shows data pad) (hlen : data.length < maxBufferSize)
    (hp : pad.length + bytes.length < 2 ^ 32) :
    ∃ w, v.scratchPush bytes = some w ∧ w.Shows data (pad ++ bytes) := by
  obtain ⟨u, hu, hs⟩ := ensureSpace_shows h hlen bytes.length
  have hroom := u.2
  have h1 := u.1.scratch_le
  have h2 := u.1.cur_le
  have hin : u.1.scratch + bytes.length ≤ u.1.reserved := by
    unfold reserved
    omega
  have hdata : (u.1.buf.overwrite u.1.scratch bytes).drop u.1.cur = u.1.buf.drop u.1.cur :=
    List.drop_overwrite_of_le (by omega) hin
  have hpad : (u.1.buf.overwrite u.1.scratch bytes).take (u.1.scratch + bytes.length) =
      u.1.buf.take u.1.scratch ++ bytes := by
    have hlen : (u.1.buf.take u.1.scratch ++ bytes).length = u.1.scratch + bytes.length := by
      rw [List.length_append, List.length_take_of_le (by omega)]
    unfold List.overwrite
    rw [← hlen, List.take_left]
  unfold scratchPush write
  rw [hu, Option.bind_some, dif_pos hin, Option.bind_some, dif_pos (by dsimp only; omega)]
  refine ⟨_, rfl, hs.max, hdata.trans hs.data, hpad.trans ?_, ?_⟩
  · rw [← hs.pad]
    rfl
  · change u.1.scratch + bytes.length < 2 ^ 32
    rwa [hs.scratch]

theorem pop_shows (h : v.Shows data pad) (hk : k ≤ data.length) :
    ∃ w, v.pop k = some w ∧ w.Shows (data.drop k) pad := by
  have hc := h.cur
  have hle : v.cur + k ≤ v.reserved := by omega
  have hdata : v.buf.drop (v.cur + k) = data.drop k := by
    rw [← h.data, VectorDownward.data, List.drop_drop]
  unfold pop
  rw [dif_pos hle]
  exact ⟨_, rfl, h.max, hdata, h.pad, h.scratch_lt⟩

theorem scratchPop_shows (h : v.Shows data pad) (hk : k ≤ pad.length) :
    ∃ w, v.scratchPop k = some w ∧ w.Shows data (pad.take (pad.length - k)) := by
  have hs := h.scratch
  unfold scratchPop
  rw [if_pos (hs ▸ hk)]
  refine ⟨_, rfl, h.max, h.data, ?_, (Nat.sub_le _ _).trans_lt h.scratch_lt⟩
  rw [← h.pad, length_scratchPad, scratchPad, scratchPad, List.take_take, Nat.min_eq_left]
  exact Nat.sub_le _ _

theorem clearScratch_shows (h : v.Shows data pad) : v.clearScratch.Shows data [] :=
  ⟨h.max, h.data, List.take_zero, Nat.two_pow_pos 32⟩

theorem clear_shows (h : v.Shows data pad) : v.clear.Shows [] [] :=
  ⟨h.max, List.drop_length, List.take_zero, Nat.two_pow_pos 32⟩

theorem reset_shows (h : v.Shows data pad) : v.reset.Shows [] [] :=
  ⟨h.max, rfl, rfl, Nat.two_pow_pos 32⟩

theorem construct_shows (allocator : Allocator) (initialSize bufferMinalign : ℕ)
    (h : 0 < bufferMinalign) :
    (construct allocator initialSize maxBufferSize bufferMinalign h).Shows [] [] :=
  ⟨rfl, rfl, rfl, Nat.two_pow_pos 32⟩

theorem dataAt_shows (h : v.Shows data pad) (ho : o ≤ data.length) :
    v.dataAt o = some (v.cur + (data.length - o)) := by
  have hc := h.cur
  unfold dataAt
  rw [if_pos (by omega)]
  congr 1
  omega

theorem read_data (h : v.Shows data pad) (hi : i + n ≤ data.length) :
    v.read (v.cur + i) n = some ((data.drop i).take n) := by
  have hc := h.cur
  unfold read
  rw [if_pos (by omega), ← h.data, VectorDownward.data, List.drop_drop]

theorem read_pad (h : v.Shows data pad) (hi : i + n ≤ pad.length) :
    v.read i n = some ((pad.drop i).take n) := by
  have hs := h.scratch
  have h1 := v.scratch_le
  have h2 := v.cur_le
  unfold read
  rw [if_pos (by unfold reserved; omega), ← h.pad, scratchPad, List.drop_take, List.take_take,
    Nat.min_eq_left (by omega)]

end VectorDownward

end EchoIocp
