import EchoIocp.FlatBuffers.Objects

namespace EchoIocp

open LittleEndian FlatBufferBuilder VectorDownward

/-- A call of an `add_` function of a generated builder. -/
inductive Add
  | element (field width e default : ℕ)
  | offset (field off : ℕ)

namespace Add

def run : Add → Build Unit
  | .element field width e default => addElement field width e default
  | .offset field off => addOffset field off

def field : Add → ℕ
  | .element field _ _ _ => field
  | .offset field _ => field

/-- Nothing is put down for a default, unless it is forced, or for a null offset. -/
def stored (forceDefaults : Bool) : Add → List (ℕ × Stored)
  | .element field width e default =>
    if e = default ∧ forceDefaults = false then [] else [(field, .scalar width e)]
  | .offset field off => if off = 0 then [] else [(field, .offset off)]

/-- What the call expects of its arguments, with `size` bytes in the buffer. -/
def Fits (size : ℕ) : Add → Prop
  | .element _ width e _ => (width = 1 ∨ width = 4) ∧ e < 256 ^ width
  | .offset _ off => off ≤ size

theorem Fits.mono {a : Add} {m n : ℕ} (h : a.Fits m) (hle : m ≤ n) : a.Fits n := by
  cases a with
  | element field width e default => exact h
  | offset field off => exact Nat.le_trans h hle

theorem field_stored {a : Add} {forceDefaults : Bool} {f : ℕ × Stored}
    (h : f ∈ a.stored forceDefaults) : f.1 = a.field := by
  cases a <;> dsimp only [stored] at h <;> split_ifs at h <;> simp_all [field]

end Add

/-- The largest field among those given. -/
def maxField (fields : List ℕ) : ℕ := fields.foldr max 0

/-- A builder struct of the generated code: its constructor, its `add_` functions, `Finish()`. -/
def createTable (adds : List Add) : Build ℕ := do
  let start ← startTable
  adds.forM Add.run
  endTable start

namespace Draft

variable (d : Draft)

def add : Add → Draft
  | .element field width e default => d.addElement field width e default
  | .offset field off => d.addOffset field off

def addAll (adds : List Add) : Draft := adds.foldl add d

def createTable (adds : List Add) : Draft := (d.startTable.addAll adds).endTable d.data.length

def tableOffset (adds : List Add) : ℕ :=
  ((d.startTable.addAll adds).pushElement 4 0).data.length

variable {d} {a : Add} {adds : List Add} {start w n len : ℕ} {fields : List (ℕ × Stored)}
  {str : List UInt8}

theorem length_padTo (hw : w = 1 ∨ w = 4) (len : ℕ) :
    (d.padTo len w).data.length ≤ d.data.length + 3 := by
  have hpad : padding (d.data.length + len) w < w := padding_lt _ (by omega)
  change (List.replicate _ _ ++ d.data).length ≤ _
  rw [List.length_append, List.length_replicate]
  omega

theorem length_pushElement_le (hw : w = 1 ∨ w = 4) (n : ℕ) :
    (d.pushElement w n).data.length ≤ d.data.length + 7 := by
  have hpad := length_padTo (d := d) hw 0
  unfold pushElement prepend
  rw [List.length_append, length_encode]
  omega

theorem padTo_aligned (h : d.data.length % w = 0) :
    (d.padTo 0 w).data = d.data := by
  have hpad : padding (d.data.length + 0) w = 0 := by
    unfold padding
    rw [Nat.add_zero, h, Nat.sub_zero, Nat.mod_self]
  unfold padTo prepend trackMinAlign
  rw [hpad]
  rfl

theorem aligned_padTo (hw : w = 1 ∨ w = 4) (len : ℕ) :
    ((d.padTo len w).data.length + len) % w = 0 := by
  have hlen : (d.padTo len w).data.length = padding (d.data.length + len) w + d.data.length := by
    unfold padTo prepend trackMinAlign
    rw [List.length_append, List.length_replicate]
  rw [hlen]
  unfold padding
  rcases hw with rfl | rfl <;> omega

theorem length_pushElement_padTo (n : ℕ) :
    ((d.padTo 0 4).pushElement 4 n).data.length = 4 + (d.padTo 0 4).data.length := by
  have haligned : (d.padTo 0 4).data.length % 4 = 0 := aligned_padTo (.inr rfl) 0
  change (encode 4 n ++ ((d.padTo 0 4).padTo 0 4).data).length = _
  rw [List.length_append, length_encode, padTo_aligned haligned]

theorem suffix_add (a : Add) : d.data <:+ (d.add a).data := by
  cases a with
  | element field width e default => exact d.suffix_addElement field width e default
  | offset field off =>
    dsimp only [add, addOffset]
    split_ifs
    · exact List.suffix_rfl
    · exact (d.suffix_padTo 0 4).trans (suffix_addElement _ _ _ _ _)

theorem length_add (h : a.Fits n) : (d.add a).data.length ≤ d.data.length + 7 := by
  cases a with
  | element field width e default =>
    have hlen := length_pushElement_le (d := d) h.1 e
    dsimp only [add, addElement]
    split_ifs
    · omega
    · exact hlen
  | offset field off =>
    have hpad := length_padTo (d := d) (.inr rfl : (4 : ℕ) = 1 ∨ 4 = 4) 0
    have hlen := length_pushElement_padTo (d := d) (d.reference off)
    dsimp only [add, addOffset]
    split_ifs
    · omega
    · unfold addElement
      split_ifs
      · omega
      · change ((d.padTo 0 4).pushElement 4 (d.reference off)).data.length ≤ _
        omega

theorem Under.add (h : d.Under start fields) (hfits : a.Fits d.data.length)
    (heven : a.field % 2 = 0) (hge : 4 ≤ a.field) (hfresh : ∀ f ∈ fields, f.1 ≠ a.field) :
    (d.add a).Under start (fields ++ a.stored d.forceDefaults) := by
  cases a with
  | element field width e default =>
    dsimp only [Draft.add, addElement, Add.stored]
    split_ifs
    · rwa [List.append_nil]
    · exact h.put (s := .scalar width e) rfl rfl hfits heven hge hfresh
  | offset field off =>
    dsimp only [Draft.add, addOffset, Add.stored]
    split_ifs with hnull
    · rwa [List.append_nil]
    · have hle : off ≤ (d.padTo 0 4).data.length := hfits.trans (d.suffix_padTo 0 4).length_le
      have hne : ¬(d.reference off = 0 ∧ (d.padTo 0 4).forceDefaults = false) := by
        unfold reference
        omega
      have hlen := length_pushElement_padTo (d := d) (d.reference off)
      have hfit : Stored.Fits ((d.padTo 0 4).pushElement 4 (d.reference off)).data.length
          (.offset off) := by
        change off < _
        omega
      have hbytes : encode 4 (d.reference off) = Stored.bytes
          ((d.padTo 0 4).pushElement 4 (d.reference off)).data.length (.offset off) := by
        have hdist : d.reference off = 4 + (d.padTo 0 4).data.length - off := by
          unfold reference
          omega
        change _ = encode 4 (_ - off)
        rw [hlen, hdist]
      unfold addElement
      rw [if_neg hne]
      exact (h.padTo (.inr rfl) 0).put (s := .offset off) rfl hbytes hfit heven hge hfresh

def settings (d : Draft) : Bool × Bool := (d.forceDefaults, d.dedupVtables)

theorem settings_addElement (d : Draft) (field w e default : ℕ) :
    (d.addElement field w e default).settings = d.settings := by
  unfold addElement
  split_ifs <;> rfl

theorem settings_add (d : Draft) (a : Add) : (d.add a).settings = d.settings := by
  cases a with
  | element field width e default => exact settings_addElement d field width e default
  | offset field off =>
    dsimp only [add, addOffset]
    split_ifs
    · rfl
    · exact settings_addElement (d.padTo 0 4) _ _ _ _

theorem maxVoffset_addElement (d : Draft) (field w e default : ℕ) :
    (d.addElement field w e default).maxVoffset ≤ max d.maxVoffset field := by
  unfold addElement
  split_ifs
  · exact le_max_left _ _
  · exact le_rfl

theorem maxVoffset_add (d : Draft) (a : Add) :
    (d.add a).maxVoffset ≤ max d.maxVoffset a.field := by
  cases a with
  | element field width e default => exact maxVoffset_addElement d field width e default
  | offset field off =>
    dsimp only [add, addOffset]
    split_ifs
    · exact le_max_left _ _
    · exact maxVoffset_addElement (d.padTo 0 4) _ _ _ _

theorem padSize_addElement (d : Draft) (field w e default : ℕ) :
    (d.addElement field w e default).padSize ≤ d.padSize + 8 := by
  unfold addElement
  split_ifs
  · exact Nat.le_add_right _ _
  · change 4 * d.vtables.length + 8 * (d.fieldLocs ++ [_]).length ≤
      4 * d.vtables.length + 8 * d.fieldLocs.length + 8
    rw [List.length_append, List.length_singleton]
    omega

theorem padSize_add (d : Draft) (a : Add) : (d.add a).padSize ≤ d.padSize + 8 := by
  cases a with
  | element field width e default => exact padSize_addElement d field width e default
  | offset field off =>
    dsimp only [add, addOffset]
    split_ifs
    · exact Nat.le_add_right _ _
    · exact padSize_addElement (d.padTo 0 4) _ _ _ _

/-- The calls are for different fields, and the table stays within its 16-bit offsets. -/
structure Accepts (size : ℕ) (adds : List Add) : Prop where
  fits : ∀ a ∈ adds, a.Fits size
  even : ∀ a ∈ adds, a.field % 2 = 0
  ge : ∀ a ∈ adds, 4 ≤ a.field
  apart : adds.Pairwise fun a b => a.field ≠ b.field
  max : maxField (adds.map Add.field) + 4 < 2 ^ 16
  few : 7 * adds.length + 7 < 2 ^ 16

theorem suffix_addAll (adds : List Add) : d.data <:+ (d.addAll adds).data := by
  induction adds generalizing d with
  | nil => exact List.suffix_rfl
  | cons a adds ih => exact (suffix_add a).trans ih

theorem length_addAll (h : ∀ a ∈ adds, a.Fits n) :
    (d.addAll adds).data.length ≤ d.data.length + 7 * adds.length := by
  induction adds generalizing d with
  | nil => exact le_rfl
  | cons a adds ih =>
    have hadd := length_add (d := d) (h a List.mem_cons_self)
    have hrest := ih (d := d.add a) fun x hx => h x (List.mem_cons_of_mem _ hx)
    rw [List.length_cons]
    change ((d.add a).addAll adds).data.length ≤ _
    omega

theorem maxVoffset_addAll (adds : List Add) :
    (d.addAll adds).maxVoffset ≤ max d.maxVoffset (maxField (adds.map Add.field)) := by
  induction adds generalizing d with
  | nil => exact le_max_left _ _
  | cons a adds ih =>
    have hadd := maxVoffset_add d a
    have hrest := ih (d := d.add a)
    change ((d.add a).addAll adds).maxVoffset ≤
      max d.maxVoffset (max a.field (maxField (adds.map Add.field)))
    omega

theorem Under.addAll (h : d.Under start fields) (hfits : ∀ a ∈ adds, a.Fits d.data.length)
    (heven : ∀ a ∈ adds, a.field % 2 = 0) (hge : ∀ a ∈ adds, 4 ≤ a.field)
    (hapart : adds.Pairwise fun a b => a.field ≠ b.field)
    (hfresh : ∀ a ∈ adds, ∀ f ∈ fields, f.1 ≠ a.field) :
    (d.addAll adds).Under start (fields ++ adds.flatMap (Add.stored d.forceDefaults)) := by
  induction adds generalizing d fields with
  | nil =>
    rw [List.flatMap_nil, List.append_nil]
    exact h
  | cons a adds ih =>
    obtain ⟨hne, hapart⟩ := List.pairwise_cons.mp hapart
    have hadd := h.add (hfits a List.mem_cons_self) (heven a List.mem_cons_self)
      (hge a List.mem_cons_self) (hfresh a List.mem_cons_self)
    have hle := (suffix_add (d := d) a).length_le
    have hrest := ih hadd (fun x hx => (hfits x (List.mem_cons_of_mem _ hx)).mono hle)
      (fun x hx => heven x (List.mem_cons_of_mem _ hx))
      (fun x hx => hge x (List.mem_cons_of_mem _ hx)) hapart ?_
    · have hforce : (d.add a).forceDefaults = d.forceDefaults := congrArg Prod.fst (settings_add d a)
      rwa [hforce, List.append_assoc, ← List.flatMap_cons] at hrest
    · intro x hx f hf
      rcases List.mem_append.mp hf with hf | hf
      · exact hfresh x (List.mem_cons_of_mem _ hx) f hf
      · rw [Add.field_stored hf]
        exact hne x hx

theorem under_addAll (hd : d.Idle) (h : Accepts d.data.length adds) :
    (d.startTable.addAll adds).Under d.data.length (adds.flatMap (Add.stored d.forceDefaults)) :=
  (under_startTable hd).addAll h.fits h.even h.ge h.apart fun _ _ _ hf => nomatch hf

theorem maxVoffset_table (hd : d.Idle) (adds : List Add) :
    (d.startTable.addAll adds).maxVoffset ≤ maxField (adds.map Add.field) := by
  have hmax := maxVoffset_addAll (d := d.startTable) adds
  have hzero : d.startTable.maxVoffset = 0 := hd.maxVoffset
  omega

theorem tableOffset_le (h : Accepts d.data.length adds) :
    d.tableOffset adds ≤ d.data.length + (7 * adds.length + 7) := by
  have hall := length_addAll (d := d.startTable) h.fits
  have hpush := length_pushElement_le (d := d.startTable.addAll adds) (.inr rfl : (4 : ℕ) = 1 ∨ _) 0
  unfold tableOffset
  change _ ≤ d.data.length + _ at hall
  omega

/-- A table that was created can be found, and everything before it is still there. -/
theorem createTable_spec (hd : d.Idle) (h : Accepts d.data.length adds) :
    HasTable (d.createTable adds).data (d.tableOffset adds)
        (adds.flatMap (Add.stored d.forceDefaults)) ∧
      (d.createTable adds).Idle ∧ d.data <:+ (d.createTable adds).data := by
  have hmax := maxVoffset_table hd adds
  have hsize := tableOffset_le h
  have hm := h.max
  have hf := h.few
  unfold tableOffset at hsize ⊢
  obtain ⟨htable, hidle, hsuffix⟩ := (under_addAll hd h).endTable (by omega) (by omega)
  exact ⟨htable, hidle, (suffix_addAll (d := d.startTable) adds).trans hsuffix⟩

end Draft

namespace FlatBufferBuilder

open Build Draft

variable {b : FlatBufferBuilder} {d : Draft} {a : Add} {adds : List Add}

theorem returns_add (h : b.Represents d) (hfits : a.Fits d.data.length)
    (hp : d.padSize + 8 < 2 ^ 32) (hn : (d.add a).data.length < maxBufferSize) :
    Returns a.run b fun _ b' => b'.Represents (d.add a) := by
  cases a with
  | element field width e default => exact returns_addElement h hfits.1 hp hn
  | offset field off => exact returns_addOffset h hfits hp hn

theorem returns_addAll (h : b.Represents d) (hfits : ∀ a ∈ adds, a.Fits d.data.length)
    (hp : d.padSize + 8 * adds.length < 2 ^ 32) (hn : (d.addAll adds).data.length < maxBufferSize) :
    Returns (adds.forM Add.run) b fun _ b' => b'.Represents (d.addAll adds) := by
  induction adds generalizing b d with
  | nil => exact Returns.pure h
  | cons a adds ih =>
    have hle : (d.add a).data.length ≤ (d.addAll (a :: adds)).data.length :=
      (suffix_addAll (d := d.add a) adds).length_le
    have hpad := padSize_add d a
    rw [List.length_cons] at hp
    refine (returns_add h (hfits a List.mem_cons_self) (by omega) (by omega)).bind
      fun _ b₁ h₁ => ?_
    refine ih h₁ (fun x hx => ?_) (by omega) hn
    exact (hfits x (List.mem_cons_of_mem _ hx)).mono (suffix_add a).length_le

theorem returns_createTable (h : b.Represents d) (hd : d.Idle)
    (hacc : Draft.Accepts d.data.length adds)
    (hn : d.data.length + (7 * adds.length + 7) + (maxField (adds.map Add.field) + 4) < maxBufferSize) :
    Returns (EchoIocp.createTable adds) b fun off b' =>
      b'.Represents (d.createTable adds) ∧ off = d.tableOffset adds := by
  have hmax := maxVoffset_table hd adds
  have hsize := tableOffset_le hacc
  have hm := hacc.max
  have hf := hacc.few
  unfold tableOffset at hsize ⊢
  have hall : (d.startTable.addAll adds).data.length ≤
      ((d.startTable.addAll adds).pushElement 4 0).data.length :=
    (Draft.suffix_pushElement _ _ _).length_le
  have hvt : (d.startTable.addAll adds).vtableSize ≤ maxField (adds.map Add.field) + 4 := by
    unfold vtableSize
    omega
  refine (returns_startTable h hd.nested hd.fieldLocs (by omega)).bind fun start b₁ hb => ?_
  obtain ⟨h₁, rfl⟩ := hb
  have hp : d.startTable.padSize + 8 * adds.length < 2 ^ 32 := by
    have hfew := hd.few
    have hcap : maxBufferSize = 2 ^ 31 - 1 := rfl
    change 4 * d.vtables.length + 8 * d.fieldLocs.length + 8 * adds.length < _
    rw [hd.fieldLocs, List.length_nil]
    omega
  refine (returns_addAll h₁ hacc.fits hp (by omega)).bind fun _ b₂ h₂ => ?_
  refine (returns_endTable h₂ (under_addAll hd hacc).toOpen (by omega) (by omega)
    (by omega)).mono fun off b₃ hb => ?_
  exact ⟨hb.2, hb.1⟩

end FlatBufferBuilder

end EchoIocp
