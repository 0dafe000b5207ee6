import EchoIocp.FlatBuffers.EndTable
import Mathlib.Data.List.Forall2

namespace EchoIocp

open LittleEndian FlatBufferBuilder

/-- A field as it is put down: a scalar, or the way to what stands `target` bytes before the
end. -/
inductive Stored
  | scalar (width n : ℕ)
  | offset (target : ℕ)
  deriving DecidableEq

namespace Stored

def width : Stored → ℕ
  | .scalar width _ => width
  | .offset _ => 4

def bytes (off : ℕ) : Stored → List UInt8
  | .scalar width n => encode width n
  | .offset target => encode 4 (off - target)

def Fits (off : ℕ) : Stored → Prop
  | .scalar width n => (width = 1 ∨ width = 4) ∧ n < 256 ^ width
  | .offset target => target < off

theorem length_bytes (s : Stored) (off : ℕ) : (s.bytes off).length = s.width := by
  cases s <;> exact length_encode _ _

theorem Fits.width {s : Stored} {off : ℕ} (h : s.Fits off) : s.width = 1 ∨ s.width = 4 := by
  cases s with
  | scalar w n => exact h.1
  | offset target => exact .inr rfl

end Stored

def StringAt (data : List UInt8) (o : ℕ) (str : List UInt8) : Prop :=
  o % 4 = 0 ∧ data.Holds o (encode 4 str.length ++ (str ++ [0]))

/-- The entry of a vtable for a field of the table at `o`. -/
def FieldAt (data : List UInt8) (o : ℕ) (vtable : List UInt8) (field : ℕ) : Option Stored → Prop
  | none => field < vtable.length → entry vtable field = encode 2 0
  | some s => ∃ off, off < o ∧ o < off + 2 ^ 16 ∧ field + 2 ≤ vtable.length ∧
      entry vtable field = encode 2 (o - off) ∧ off % s.width = 0 ∧ s.Fits off ∧
      data.Holds off (s.bytes off)

/-- The table at `o`, whose vtable stands at `use`. -/
structure TableAt (data : List UInt8) (o use : ℕ) (vtable : List UInt8)
    (fields : List (ℕ × Stored)) : Prop where
  aligned : o % 4 = 0
  link : data.Holds o (encode 4 ((use + 2 ^ 32 - o) % 2 ^ 32))
  stands : data.Holds use vtable
  useAligned : use % 2 = 0
  size : 4 ≤ vtable.length ∧ vtable.length < 2 ^ 16 ∧ vtable.length % 2 = 0
  head : entry vtable 0 = encode 2 vtable.length
  fields : ∀ field, field % 2 = 0 → 4 ≤ field → FieldAt data o vtable field (fields.lookup field)

def HasTable (data : List UInt8) (o : ℕ) (fields : List (ℕ × Stored)) : Prop :=
  ∃ use vtable, TableAt data o use vtable fields

section

variable {data more str vt : List UInt8} {o use field : ℕ} {s : Option Stored}
  {fields : List (ℕ × Stored)}

theorem StringAt.suffix (h : StringAt data o str) (hs : data <:+ more) : StringAt more o str :=
  ⟨h.1, h.2.suffix hs⟩

theorem FieldAt.suffix (h : FieldAt data o vt field s) (hs : data <:+ more) :
    FieldAt more o vt field s := by
  cases s with
  | none => exact h
  | some s =>
    obtain ⟨off, h1, h2, h3, h4, h5, h6, h7⟩ := h
    exact ⟨off, h1, h2, h3, h4, h5, h6, h7.suffix hs⟩

theorem HasTable.suffix (h : HasTable data o fields) (hs : data <:+ more) :
    HasTable more o fields := by
  obtain ⟨use, vtable, h⟩ := h
  exact ⟨use, vtable, h.aligned, h.link.suffix hs, h.stands.suffix hs, h.useAligned, h.size, h.head,
    fun field h1 h2 => (h.fields field h1 h2).suffix hs⟩

end

theorem exists_of_forall₂ {α β : Type} {R : α → β → Prop} {l : List α} {m : List β} {a : α}
    (h : List.Forall₂ R l m) (ha : a ∈ l) : ∃ b ∈ m, R a b := by
  induction h with
  | nil => cases ha
  | cons hr _ ih =>
    rcases List.mem_cons.mp ha with rfl | ha
    · exact ⟨_, List.mem_cons_self, hr⟩
    · obtain ⟨b, hb, hr⟩ := ih ha
      exact ⟨b, List.mem_cons_of_mem _ hb, hr⟩

/-- The field was put down where its `FieldLoc` says. -/
structure PutAt (data : List UInt8) (fl : FieldLoc) (f : ℕ × Stored) : Prop where
  id : fl.id = f.1
  aligned : fl.off % f.2.width = 0
  fits : f.2.Fits fl.off
  holds : data.Holds fl.off (f.2.bytes fl.off)

/-- What holds of a draft between two objects. -/
structure Draft.Idle (d : Draft) : Prop where
  nested : d.nested = false
  finished : d.finished = false
  fieldLocs : d.fieldLocs = []
  maxVoffset : d.maxVoffset = 0
  minalign : d.minalign = 1 ∨ d.minalign = 4
  vtables : ∀ o ∈ d.vtables, VtableAt d.data o
  few : 4 * d.vtables.length ≤ d.data.length
  vtablesAligned : ∀ o ∈ d.vtables, o % 2 = 0

/-- What holds of a draft inside a table that started at `start` and has got `fields` so far. -/
structure Draft.Under (d : Draft) (start : ℕ) (fields : List (ℕ × Stored)) : Prop
    extends Open d start where
  finished : d.finished = false
  even : d.maxVoffset % 2 = 0
  minalign : d.minalign = 1 ∨ d.minalign = 4
  vtablesAligned : ∀ o ∈ d.vtables, o % 2 = 0
  fields : List.Forall₂ (PutAt d.data) d.fieldLocs fields

namespace Draft

variable {d : Draft} {start field w n len target : ℕ} {fields : List (ℕ × Stored)} {s : Stored}

theorem idle_empty (forceDefaults dedupVtables : Bool) : (empty forceDefaults dedupVtables).Idle :=
  ⟨rfl, rfl, rfl, rfl, .inl rfl, fun _ h => (nomatch h), le_rfl, fun _ h => (nomatch h)⟩

theorem Idle.suffix (h : d.Idle) {data : List UInt8} (hs : d.data <:+ data) {m : ℕ}
    (hm : m = 1 ∨ m = 4) : Idle { d with data := data, minalign := m } :=
  ⟨h.nested, h.finished, h.fieldLocs, h.maxVoffset, hm,
    fun o ho => (h.vtables o ho).suffix hs, h.few.trans hs.length_le, h.vtablesAligned⟩

theorem Under.suffix (h : d.Under start fields) {data : List UInt8} (hs : d.data <:+ data) {m : ℕ}
    (hm : m = 1 ∨ m = 4) : Under { d with data := data, minalign := m } start fields := by
  have hle := hs.length_le
  have hoff (fl : FieldLoc) (hfl : fl ∈ d.fieldLocs) : start < fl.off ∧ fl.off ≤ data.length := by
    have hfl := h.off fl hfl
    omega
  have hopen : Open { d with data := data, minalign := m } start :=
    ⟨h.nested, h.start_le.trans hle, h.enterable, hoff, fun o ho => (h.vtables o ho).suffix hs,
      h.few.trans hle⟩
  refine ⟨hopen, h.finished, h.even, hm, h.vtablesAligned, h.fields.imp fun fl f hp => ?_⟩
  exact ⟨hp.id, hp.aligned, hp.fits, hp.holds.suffix hs⟩

theorem under_startTable (h : d.Idle) : d.startTable.Under d.data.length [] := by
  have hlocs := h.fieldLocs
  have hmax := h.maxVoffset
  refine ⟨⟨rfl, le_rfl, ?_, ?_, h.vtables, h.few⟩, h.finished, ?_, h.minalign, h.vtablesAligned, ?_⟩
  · unfold startTable
    rw [hlocs]
    exact ⟨fun _ h => (nomatch h), fun _ h => (nomatch h), fun _ h => (nomatch h), List.Pairwise.nil⟩
  · intro fl hfl
    change fl ∈ d.fieldLocs at hfl
    rw [hlocs] at hfl
    cases hfl
  · change d.maxVoffset % 2 = 0
    omega
  · change List.Forall₂ _ d.fieldLocs []
    rw [hlocs]
    exact List.Forall₂.nil

theorem max_minalign {m : ℕ} (hm : m = 1 ∨ m = 4) (hw : w = 1 ∨ w = 4) :
    max m w = 1 ∨ max m w = 4 := by omega

theorem Under.padTo (h : d.Under start fields) (hw : w = 1 ∨ w = 4) (len : ℕ) :
    (d.padTo len w).Under start fields :=
  h.suffix (d.suffix_padTo len w) (max_minalign h.minalign hw)

theorem aligned_pushElement (hw : w = 1 ∨ w = 4) (n : ℕ) :
    (d.pushElement w n).data.length % w = 0 := by
  rw [length_pushElement]
  unfold padding
  rcases hw with rfl | rfl <;> omega

theorem Under.put (h : d.Under start fields) (hw : s.width = w)
    (hbytes : encode w n = s.bytes (d.pushElement w n).data.length)
    (hfits : s.Fits (d.pushElement w n).data.length) (heven : field % 2 = 0) (hge : 4 ≤ field)
    (hfresh : ∀ f ∈ fields, f.1 ≠ field) :
    ((d.pushElement w n).trackField field (d.pushElement w n).data.length).Under start
      (fields ++ [(field, s)]) := by
  have hwidth : w = 1 ∨ w = 4 := hw ▸ hfits.width
  have hpush : (d.pushElement w n).Under start fields :=
    h.suffix (d.suffix_pushElement w n) (max_minalign h.minalign hwidth)
  have hids (fl : FieldLoc) (hfl : fl ∈ d.fieldLocs) : fl.id ≠ field := by
    obtain ⟨f, hf, hput⟩ := exists_of_forall₂ h.fields hfl
    rw [hput.id]
    exact hfresh f hf
  have hvt : d.vtableSize ≤ max (max d.maxVoffset field + 2) 4 := by
    unfold vtableSize
    omega
  have hlen : (d.pushElement w n).data.length = d.data.length + padding d.data.length w + w :=
    length_pushElement d w n
  have hstart := h.start_le
  refine ⟨⟨hpush.nested, hpush.start_le, ⟨?_, ?_, ?_, ?_⟩, ?_, hpush.vtables, hpush.few⟩,
    hpush.finished, ?_, hpush.minalign, hpush.vtablesAligned, ?_⟩
  · intro fl hfl
    rcases List.mem_append.mp hfl with hfl | hfl
    · exact h.enterable.even fl hfl
    · obtain rfl := List.mem_singleton.mp hfl
      exact heven
  · intro fl hfl
    rcases List.mem_append.mp hfl with hfl | hfl
    · exact h.enterable.ge fl hfl
    · obtain rfl := List.mem_singleton.mp hfl
      exact hge
  · intro fl hfl
    change fl.id + 2 ≤ max (max d.maxVoffset field + 2) 4
    rcases List.mem_append.mp hfl with hfl | hfl
    · exact (h.enterable.le fl hfl).trans hvt
    · obtain rfl := List.mem_singleton.mp hfl
      change field + 2 ≤ _
      omega
  · refine List.pairwise_append.mpr ⟨h.enterable.apart, List.pairwise_singleton _ _, ?_⟩
    intro fl hfl fl' hfl'
    obtain rfl := List.mem_singleton.mp hfl'
    exact hids fl hfl
  · intro fl hfl
    rcases List.mem_append.mp hfl with hfl | hfl
    · exact hpush.off fl hfl
    · obtain rfl := List.mem_singleton.mp hfl
      change start < (d.pushElement w n).data.length ∧ _
      exact ⟨by omega, le_rfl⟩
  · have heven' := h.even
    change max d.maxVoffset field % 2 = 0
    omega
  · have hholds : (d.pushElement w n).data.Holds (d.pushElement w n).data.length (encode w n) := by
      have hfront := List.holds_front (encode w n) (d.padTo 0 w).data
      rwa [← List.length_append] at hfront
    have haligned : (d.pushElement w n).data.length % s.width = 0 := by
      rw [hw]
      exact aligned_pushElement hwidth n
    exact List.rel_append hpush.fields (.cons ⟨rfl, haligned, hfits, hbytes ▸ hholds⟩ .nil)

theorem link_front (xs rest : List UInt8) (n use : ℕ) :
    link (xs ++ (encode 4 n ++ rest)) (4 + rest.length) use =
      xs ++ (encode 4 ((use + 2 ^ 32 - (4 + rest.length)) % 2 ^ 32) ++ rest) := by
  -- the link of a table replaces the zero its place was kept with
  have hpos : (xs ++ (encode 4 n ++ rest)).length - (4 + rest.length) = xs.length := by
    rw [List.length_append, List.length_append, length_encode]
    omega
  unfold link
  rw [hpos, List.overwrite]
  rw [List.take_left, length_encode, List.drop_length_add_append, List.append_assoc,
    List.drop_append_of_le_length (length_encode _ _).ge, List.drop_of_length_le (length_encode _ _).le,
    List.nil_append]

theorem exists_of_forall₂_right {α β : Type} {R : α → β → Prop} {l : List α} {m : List β} {b : β}
    (h : List.Forall₂ R l m) (hb : b ∈ m) : ∃ a ∈ l, R a b :=
  exists_of_forall₂ h.flip hb

/-- The vtable of a table says where each of its fields was put. -/
theorem Under.fieldAt (h : d.Under start fields) {loc : ℕ} {data : List UInt8}
    (hs : d.data <:+ data) (hloc : d.data.length < loc) (hobj : loc < start + 2 ^ 16)
    (heven : field % 2 = 0) (hge : 4 ≤ field) :
    FieldAt data loc (d.newVtable start loc) field (fields.lookup field) := by
  have hblank : (blankVtable d.vtableSize (loc - start)).length = d.vtableSize :=
    length_blankVtable (le_max_right _ _) _
  have hE : Enterable (blankVtable d.vtableSize (loc - start)).length d.fieldLocs := by
    rw [hblank]
    exact h.enterable
  have hlen := length_newVtable h.enterable start loc
  cases hlook : fields.lookup field with
  | none =>
    intro hlt
    have hother (fl : FieldLoc) (hfl : fl ∈ d.fieldLocs) : fl.id + 2 ≤ field ∨ field + 2 ≤ fl.id := by
      obtain ⟨f, hf, hput⟩ := exists_of_forall₂ h.fields hfl
      have hne : field ≠ f.1 := by simpa using List.lookup_eq_none_iff.mp hlook f hf
      have hid := hput.id
      have := h.enterable.even fl hfl
      omega
    have hsize : d.vtableSize % 2 = 0 := by
      have := h.even
      unfold vtableSize
      omega
    rw [hlen] at hlt
    unfold newVtable
    rw [entry_enter_of_ne hE hother, entry_blankVtable hge (by omega)]
  | some s =>
    obtain ⟨l₁, l₂, rfl, -⟩ := List.lookup_eq_some_iff.mp hlook
    have hmem : (field, s) ∈ l₁ ++ (field, s) :: l₂ := by simp
    obtain ⟨fl, hfl, hput⟩ := exists_of_forall₂_right h.fields hmem
    obtain ⟨h1, h2⟩ := h.off fl hfl
    have hid : fl.id = field := hput.id
    have hle := h.enterable.le fl hfl
    refine ⟨fl.off, by omega, by omega, by omega, ?_, hput.aligned, hput.fits, hput.holds.suffix hs⟩
    rw [← hid]
    exact entry_enter hE hfl

theorem Under.endTable (h : d.Under start fields) (hmax : d.maxVoffset + 2 < 2 ^ 16)
    (hobj : (d.pushElement 4 0).data.length < start + 2 ^ 16) :
    HasTable (d.endTable start).data (d.pushElement 4 0).data.length fields ∧
      (d.endTable start).Idle ∧ d.data <:+ (d.endTable start).data := by
  let rest := (d.padTo 0 4).data
  let loc := 4 + rest.length
  let vt := d.newVtable start loc
  have hdata : (d.pushElement 4 0).data = encode 4 0 ++ rest := rfl
  have hloc : (d.pushElement 4 0).data.length = loc := by
    rw [hdata, List.length_append, length_encode]
  have haligned : loc % 4 = 0 := by
    rw [← hloc]
    exact aligned_pushElement (.inr rfl) 0
  have hrest : d.data <:+ rest := d.suffix_padTo 0 4
  have hle := hrest.length_le
  have hvtLen : vt.length = d.vtableSize := length_newVtable h.enterable start loc
  have hsize : 4 ≤ vt.length ∧ vt.length < 2 ^ 16 ∧ vt.length % 2 = 0 := by
    have heven := h.even
    unfold vtableSize at hvtLen
    omega
  have hhead : entry vt 0 = encode 2 vt.length := entry_newVtable_zero h.enterable start loc
  have hmin : max d.minalign 4 = 1 ∨ max d.minalign 4 = 4 := max_minalign h.minalign (.inr rfl)
  -- whatever is put on top, the bytes below the table stay
  have hdone (xs : List UInt8) (use : ℕ)
      (huse : (xs ++ (encode 4 ((use + 2 ^ 32 - loc) % 2 ^ 32) ++ rest)).Holds use vt)
      (huse2 : use % 2 = 0) :
      HasTable (xs ++ (encode 4 ((use + 2 ^ 32 - loc) % 2 ^ 32) ++ rest)) loc fields := by
    have hsuffix : rest <:+ xs ++ (encode 4 ((use + 2 ^ 32 - loc) % 2 ^ 32) ++ rest) :=
      (List.suffix_append _ _).trans (List.suffix_append _ _)
    have hlink := (List.holds_front (encode 4 ((use + 2 ^ 32 - loc) % 2 ^ 32)) rest).append xs
    rw [length_encode] at hlink
    refine ⟨use, vt, haligned, hlink, huse, huse2, hsize, hhead, fun field h1 h2 => ?_⟩
    exact h.fieldAt (hrest.trans hsuffix) (by omega) (by omega) h1 h2
  unfold Draft.endTable
  dsimp only
  rw [hloc, hdata]
  cases hshared : d.sharedVtable (encode 4 0 ++ rest) (d.newVtable start loc) with
  | none =>
    have hlink : link (vt ++ (encode 4 0 ++ rest)) loc (loc + vt.length) =
        vt ++ (encode 4 ((loc + vt.length + 2 ^ 32 - loc) % 2 ^ 32) ++ rest) := link_front vt rest 0 _
    have hnew := List.holds_front vt (encode 4 ((loc + vt.length + 2 ^ 32 - loc) % 2 ^ 32) ++ rest)
    rw [List.length_append, length_encode, Nat.add_comm vt.length] at hnew
    have hsuffix : d.data <:+
        vt ++ (encode 4 ((loc + vt.length + 2 ^ 32 - loc) % 2 ^ 32) ++ rest) :=
      (hrest.trans (List.suffix_append _ _)).trans (List.suffix_append _ _)
    dsimp only
    rw [hlink]
    refine ⟨hdone vt _ hnew (by omega), ⟨rfl, h.finished, rfl, rfl, hmin, ?_, ?_, ?_⟩, hsuffix⟩
    · intro o ho
      rcases List.mem_append.mp ho with ho | ho
      · exact (h.vtables o ho).suffix hsuffix
      · obtain rfl := List.mem_singleton.mp ho
        exact ⟨vt, hnew, hsize.1, hsize.2.1, hhead⟩
    · have hfew := h.few
      change 4 * (d.vtables ++ [loc + vt.length]).length ≤ (vt ++ (_ ++ rest)).length
      rw [List.length_append, List.length_append, List.length_append, List.length_singleton]
      omega
    · intro o ho
      rcases List.mem_append.mp ho with ho | ho
      · exact h.vtablesAligned o ho
      · obtain rfl := List.mem_singleton.mp ho
        change (loc + vt.length) % 2 = 0
        omega
  | some use =>
    have hlink : link (encode 4 0 ++ rest) loc use =
        encode 4 ((use + 2 ^ 32 - loc) % 2 ^ 32) ++ rest := link_front [] rest 0 use
    have hsuffix : d.data <:+ encode 4 ((use + 2 ^ 32 - loc) % 2 ^ 32) ++ rest :=
      hrest.trans (List.suffix_append _ _)
    have hfind : d.dedupVtables = true ∧
        (d.vtables.find? fun o => Shared (encode 4 0 ++ rest) vt o) = some use := by
      unfold Draft.sharedVtable at hshared
      split_ifs at hshared with hdedup
      exact ⟨hdedup, hshared⟩
    have hmem : use ∈ d.vtables := List.mem_of_find?_eq_some hfind.2
    have hshare : Shared (encode 4 0 ++ rest) vt use := by
      have hfound := List.find?_some hfind.2
      exact of_decide_eq_true hfound
    -- the vtable found lies below the table, where the link does not reach
    have huse : use ≤ rest.length := by
      obtain ⟨_, hholds, -⟩ := h.vtables use hmem
      exact hholds.1.trans hle
    have hold : rest.Holds use vt := by
      have hat : (encode 4 0 ++ rest).Holds use vt :=
        List.holds_of_take_drop (by rw [List.length_append]; omega) hshare
      have hdrop := hat.drop (k := 4) (by rw [List.length_append, length_encode]; omega)
      rwa [List.drop_append_of_le_length (length_encode _ _).ge,
        List.drop_of_length_le (length_encode _ _).le, List.nil_append] at hdrop
    dsimp only
    rw [hlink]
    refine ⟨hdone [] use (hold.append _) (h.vtablesAligned use hmem),
      ⟨rfl, h.finished, rfl, rfl, hmin, ?_, h.few.trans hsuffix.length_le, h.vtablesAligned⟩, hsuffix⟩
    exact fun o ho => (h.vtables o ho).suffix hsuffix

end Draft

end EchoIocp
