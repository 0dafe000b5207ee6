import EchoIocp.FlatBuffers.ObjectGraph

namespace EchoIocp

open LittleEndian FlatBufferBuilder VectorDownward

/-- What a field is given: a scalar and its default, or one of the objects made before. -/
inductive Operand
  | scalar (width n default : ℕ)
  | object (i : ℕ)

inductive Object
  | string (str : Option (List UInt8))
  | table (fields : List (ℕ × Operand))

def Operand.add (offs : List ℕ) (field : ℕ) : Operand → Add
  | .scalar width n default => .element field width n default
  | .object i => .offset field (offs.getD i 0)

/-- The `add_` calls for a table, with the objects before it at `offs`. -/
def calls (offs : List ℕ) (fields : List (ℕ × Operand)) : List Add :=
  fields.map fun f => f.2.add offs f.1

namespace Object

def create (offs : List ℕ) : Object → Build ℕ
  | .string str => createStringOrNull str
  | .table fields => createTable (calls offs fields)

/-- The object can be read at `off`, where those it refers to are at `offs`. -/
def At (data : List UInt8) (forceDefaults : Bool) (offs : List ℕ) (off : ℕ) : Object → Prop
  | .string none => off = 0
  | .string (some str) => StringAt data off (cString str)
  | .table fields =>
    HasTable data off ((calls offs fields).flatMap (Add.stored forceDefaults))

/-- An upper bound of the bytes it takes, a vtable that turns out to be shared included. -/
def cost : Object → ℕ
  | .string str => (str.getD []).length + 8
  | .table fields => 7 * fields.length + 7 + (maxField (fields.map Prod.fst) + 4)

end Object

def createObjects : List Object → List ℕ → Build (List ℕ)
  | [], offs => pure offs
  | o :: objects, offs => do
    let off ← o.create offs
    createObjects objects (offs ++ [off])

/-- A buffer with the object of number `root` as its root. -/
def buildBuffer (objects : List Object) (root : ℕ) (sizePrefix : Bool) : Build (List UInt8) := do
  let offs ← createObjects objects []
  finish (offs.getD root 0) sizePrefix
  bufferBytes

/-- What an object with `k` objects before it can be made of. -/
def Operand.Valid (k : ℕ) : Operand → Prop
  | .scalar width n _ => (width = 1 ∨ width = 4) ∧ n < 256 ^ width
  | .object i => i < k

structure FieldsValid (k : ℕ) (fields : List (ℕ × Operand)) : Prop where
  operands : ∀ f ∈ fields, f.2.Valid k
  even : ∀ f ∈ fields, f.1 % 2 = 0
  ge : ∀ f ∈ fields, 4 ≤ f.1
  apart : fields.Pairwise fun f g => f.1 ≠ g.1
  max : maxField (fields.map Prod.fst) + 4 < 2 ^ 16
  few : 7 * fields.length + 7 < 2 ^ 16

def Object.Valid (k : ℕ) : Object → Prop
  | .string _ => True
  | .table fields => FieldsValid k fields

def ObjectsValid : ℕ → List Object → Prop
  | _, [] => True
  | k, o :: objects => o.Valid k ∧ ObjectsValid (k + 1) objects

namespace Draft

variable (d : Draft)

def create (offs : List ℕ) : Object → Draft
  | .string str => d.createStringOrNull str
  | .table fields => d.createTable (calls offs fields)

def createdAt (offs : List ℕ) : Object → ℕ
  | .string str => d.stringOffset str
  | .table fields => d.tableOffset (calls offs fields)

def createObjects (d : Draft) : List Object → List ℕ → Draft × List ℕ
  | [], offs => (d, offs)
  | o :: objects, offs =>
    createObjects (d.create offs o) objects (offs ++ [d.createdAt offs o])

end Draft

/-- The bytes of a buffer as a function of the objects alone. -/
def serialize (forceDefaults dedupVtables : Bool) (objects : List Object) (root : ℕ)
    (sizePrefix : Bool) : List UInt8 :=
  let (d, offs) := (Draft.empty forceDefaults dedupVtables).createObjects objects []
  (d.finish (offs.getD root 0) sizePrefix).data

namespace Draft

variable {d : Draft} {offs more : List ℕ} {o : Object} {objects : List Object} {k n off root : ℕ}
  {fields : List (ℕ × Operand)} {str data data' : List UInt8} {forceDefaults : Bool}

theorem createString_spec (hd : d.Idle) (str : List UInt8) :
    StringAt (d.createString str).data (d.createString str).data.length str ∧
      (d.createString str).Idle ∧ d.data <:+ (d.createString str).data := by
  let rest := (d.padTo (str.length + 1) 4).data
  have hrest : d.data <:+ rest := d.suffix_padTo _ _
  have haligned : (str ++ ([0] ++ rest)).length % 4 = 0 := by
    have hpad : (rest.length + (str.length + 1)) % 4 = 0 := aligned_padTo (.inr rfl) (str.length + 1)
    rw [List.length_append, List.length_append, List.length_singleton]
    omega
  have hdata : (d.createString str).data = encode 4 str.length ++ (str ++ ([0] ++ rest)) :=
    congrArg (encode 4 str.length ++ ·)
      (padTo_aligned (d := ((d.padTo (str.length + 1) 4).prepend [0]).prepend str) haligned)
  have hsuffix : d.data <:+ (d.createString str).data := by
    rw [hdata]
    exact ((hrest.trans (List.suffix_append _ _)).trans (List.suffix_append _ _)).trans
      (List.suffix_append _ _)
  have hmin : max (max d.minalign 4) 4 = 1 ∨ max (max d.minalign 4) 4 = 4 :=
    max_minalign (max_minalign hd.minalign (.inr rfl)) (.inr rfl)
  refine ⟨⟨?_, ?_⟩, hd.suffix hsuffix hmin, hsuffix⟩
  · exact aligned_pushElement (.inr rfl) str.length
  · have hfront := List.holds_front (encode 4 str.length ++ (str ++ [0])) rest
    rw [hdata]
    rw [← List.length_append, List.append_assoc, List.append_assoc] at hfront
    exact hfront

theorem length_createString (d : Draft) (str : List UInt8) :
    (d.createString str).data.length ≤ d.data.length + str.length + 8 := by
  have hpad := length_padTo (d := d) (.inr rfl : (4 : ℕ) = 1 ∨ _) (str.length + 1)
  have haligned : ((((d.padTo (str.length + 1) 4).prepend [0]).prepend str).data).length % 4 = 0 := by
    have hrest : ((d.padTo (str.length + 1) 4).data.length + (str.length + 1)) % 4 = 0 :=
      aligned_padTo (.inr rfl) (str.length + 1)
    unfold prepend
    rw [List.length_append, List.length_append, List.length_singleton]
    omega
  unfold createString pushElement
  change (encode 4 str.length ++ _).length ≤ _
  rw [List.length_append, length_encode, padTo_aligned haligned]
  change 4 + (str ++ ([0] ++ _)).length ≤ _
  rw [List.length_append, List.length_append, List.length_singleton]
  omega

theorem field_add (offs : List ℕ) (field : ℕ) (operand : Operand) :
    (operand.add offs field).field = field := by
  cases operand <;> rfl

theorem map_field_calls (offs : List ℕ) (fields : List (ℕ × Operand)) :
    (calls offs fields).map Add.field = fields.map Prod.fst := by
  unfold calls
  rw [List.map_map]
  apply List.map_congr_left
  intro f _
  exact field_add offs f.1 f.2

theorem pairwise_calls (h : fields.Pairwise fun f g => f.1 ≠ g.1) (offs : List ℕ) :
    (calls offs fields).Pairwise fun a b => a.field ≠ b.field := by
  apply List.pairwise_map.mpr
  apply h.imp
  intro f g hne
  rwa [field_add, field_add]

theorem fits_add (h : ∀ x ∈ offs, x ≤ n) {f : ℕ × Operand} (hf : f.2.Valid k) :
    (f.2.add offs f.1).Fits n := by
  obtain ⟨field, operand⟩ := f
  cases operand with
  | scalar width e default => exact hf
  | object i =>
    change offs.getD i 0 ≤ n
    rw [List.getD_eq_getElem?_getD]
    rcases Nat.lt_or_ge i offs.length with hi | hi
    · rw [List.getElem?_eq_getElem hi]
      exact h _ (List.getElem_mem hi)
    · rw [List.getElem?_eq_none hi]
      exact Nat.zero_le n

theorem accepts_calls (h : FieldsValid k fields) (hoffs : ∀ x ∈ offs, x ≤ n) :
    Accepts n (calls offs fields) := by
  have hmem (a : Add) (ha : a ∈ calls offs fields) : ∃ f ∈ fields, f.2.add offs f.1 = a :=
    List.mem_map.mp ha
  have hlen : (calls offs fields).length = fields.length := List.length_map _
  refine ⟨fun a ha => ?_, fun a ha => ?_, fun a ha => ?_, pairwise_calls h.apart offs, ?_, ?_⟩
  · obtain ⟨f, hf, rfl⟩ := hmem a ha
    exact fits_add hoffs (h.operands f hf)
  · obtain ⟨f, hf, rfl⟩ := hmem a ha
    rw [field_add]
    exact h.even f hf
  · obtain ⟨f, hf, rfl⟩ := hmem a ha
    rw [field_add]
    exact h.ge f hf
  · rw [map_field_calls]
    exact h.max
  · rw [hlen]
    exact h.few

theorem length_link {loc use : ℕ} (h4 : 4 ≤ loc) (hloc : loc ≤ data.length) :
    (link data loc use).length = data.length := by
  unfold link
  rw [List.length_overwrite]
  rw [length_encode]
  omega

theorem length_endTable {start : ℕ} {stored : List (ℕ × Stored)} (h : d.Under start stored) :
    (d.endTable start).data.length ≤ (d.pushElement 4 0).data.length + d.vtableSize := by
  have h4 : 4 ≤ (d.pushElement 4 0).data.length := by
    rw [length_pushElement]
    omega
  unfold endTable
  dsimp only
  cases d.sharedVtable (d.pushElement 4 0).data
      (d.newVtable start (d.pushElement 4 0).data.length) with
  | none =>
    dsimp only
    rw [length_link h4 (by rw [List.length_append]; omega), List.length_append,
      length_newVtable h.enterable, Nat.add_comm]
  | some use =>
    dsimp only
    rw [length_link h4 le_rfl]
    omega

theorem settings_endTable (d : Draft) (start : ℕ) :
    (d.endTable start).settings = d.settings := by
  unfold endTable
  dsimp only
  split <;> rfl

theorem settings_addAll (d : Draft) (adds : List Add) :
    (d.addAll adds).settings = d.settings := by
  induction adds generalizing d with
  | nil => rfl
  | cons a adds ih => exact (ih (d.add a)).trans (settings_add d a)

theorem settings_create (d : Draft) (offs : List ℕ) (o : Object) :
    (d.create offs o).settings = d.settings := by
  cases o with
  | string str => cases str <;> rfl
  | table fields =>
    exact (settings_endTable _ _).trans (settings_addAll d.startTable _)

/-- What was created can be found, and everything before it is still there. -/
theorem create_spec (hd : d.Idle) (hv : o.Valid k) (hoffs : ∀ x ∈ offs, x ≤ d.data.length) :
    o.At (d.create offs o).data d.forceDefaults offs (d.createdAt offs o) ∧
      (d.create offs o).Idle ∧ d.data <:+ (d.create offs o).data := by
  cases o with
  | string str =>
    cases str with
    | none => exact ⟨rfl, hd, List.suffix_rfl⟩
    | some str => exact createString_spec hd (cString str)
  | table fields => exact createTable_spec hd (accepts_calls hv hoffs)

theorem length_create (hd : d.Idle) (hv : o.Valid k) (hoffs : ∀ x ∈ offs, x ≤ d.data.length) :
    (d.create offs o).data.length ≤ d.data.length + o.cost := by
  cases o with
  | string str =>
    cases str with
    | none => exact Nat.le_add_right _ _
    | some str =>
      have hlen := length_createString d (cString str)
      have htake : (cString str).length ≤ str.length := (List.takeWhile_sublist _).length_le
      change (d.createString (cString str)).data.length ≤ d.data.length + (str.length + 8)
      omega
  | table fields =>
    have hacc := accepts_calls hv hoffs
    have hlen := length_endTable (under_addAll hd hacc)
    have hoff := tableOffset_le hacc
    have hmax := maxVoffset_table hd (calls offs fields)
    have hcount : (calls offs fields).length = fields.length := List.length_map _
    rw [map_field_calls] at hmax
    unfold vtableSize at hlen
    unfold tableOffset at hoff
    change ((d.startTable.addAll (calls offs fields)).endTable d.data.length).data.length ≤
      d.data.length + (7 * fields.length + 7 + (maxField (fields.map Prod.fst) + 4))
    omega

end Draft

theorem Object.At.le {o : Object} {data : List UInt8} {forceDefaults : Bool} {offs : List ℕ}
    {off : ℕ} (h : o.At data forceDefaults offs off) : off ≤ data.length := by
  cases o with
  | string str =>
    cases str with
    | none =>
      obtain rfl : off = 0 := h
      exact Nat.zero_le _
    | some str => exact h.2.1
  | table fields =>
    obtain ⟨use, vtable, htable⟩ := h
    exact htable.link.1

theorem calls_append {k : ℕ} {fields : List (ℕ × Operand)} {offs : List ℕ}
    (h : ∀ f ∈ fields, f.2.Valid k) (hk : k ≤ offs.length) (more : List ℕ) :
    calls (offs ++ more) fields = calls offs fields := by
  apply List.map_congr_left
  rintro ⟨field, operand⟩ hf
  cases operand with
  | scalar width n default => rfl
  | object i =>
    have hi : i < k := h _ hf
    change Add.offset field ((offs ++ more).getD i 0) = .offset field (offs.getD i 0)
    rw [List.getD_eq_getElem?_getD, List.getD_eq_getElem?_getD, List.getElem?_append_left (by omega)]

theorem Object.At.suffix {o : Object} {data more : List UInt8} {forceDefaults : Bool}
    {offs : List ℕ} {off : ℕ} (h : o.At data forceDefaults offs off) (hs : data <:+ more) :
    o.At more forceDefaults offs off := by
  cases o with
  | string str =>
    cases str with
    | none => exact h
    | some str => exact StringAt.suffix h hs
  | table fields => exact HasTable.suffix h hs

theorem Object.At.append {o : Object} {data : List UInt8} {forceDefaults : Bool} {offs : List ℕ}
    {k off : ℕ} (h : o.At data forceDefaults offs off) (hv : o.Valid k) (hk : k ≤ offs.length)
    (new : List ℕ) : o.At data forceDefaults (offs ++ new) off := by
  cases o with
  | string str => cases str <;> exact h
  | table fields =>
    have htable : HasTable data off ((calls offs fields).flatMap (Add.stored forceDefaults)) := h
    rwa [← calls_append hv.operands hk new] at htable

namespace Draft

variable {d : Draft} {offs : List ℕ} {o : Object} {objects : List Object} {k : ℕ}

theorem le_create (hd : d.Idle) (hv : o.Valid k) (hoffs : ∀ x ∈ offs, x ≤ d.data.length) :
    ∀ x ∈ offs ++ [d.createdAt offs o], x ≤ (d.create offs o).data.length := by
  intro x hx
  obtain ⟨hat, -, hsuffix⟩ := create_spec hd hv hoffs
  rcases List.mem_append.mp hx with hx | hx
  · exact (hoffs x hx).trans hsuffix.length_le
  · obtain rfl := List.mem_singleton.mp hx
    exact hat.le

theorem createObjects_spec (hd : d.Idle) (hv : ObjectsValid offs.length objects)
    (hoffs : ∀ x ∈ offs, x ≤ d.data.length) :
    (d.createObjects objects offs).1.Idle ∧
      d.data <:+ (d.createObjects objects offs).1.data ∧
      (d.createObjects objects offs).1.settings = d.settings ∧
      ∃ new, (d.createObjects objects offs).2 = offs ++ new ∧
        List.Forall₂ (fun o off => o.At (d.createObjects objects offs).1.data d.forceDefaults
          (d.createObjects objects offs).2 off) objects new := by
  induction objects generalizing d offs with
  | nil => exact ⟨hd, List.suffix_rfl, rfl, [], (List.append_nil _).symm, .nil⟩
  | cons o objects ih =>
    obtain ⟨hv, hrest⟩ := hv
    obtain ⟨hat, hidle, hsuffix⟩ := create_spec hd hv hoffs
    have hoffs' := le_create hd hv hoffs
    have hrest' : ObjectsValid (offs ++ [d.createdAt offs o]).length objects := by
      rw [List.length_append]
      exact hrest
    obtain ⟨hidle', hsuffix', hforce, new, hnew, hall⟩ := ih hidle hrest' hoffs'
    have hsettings := settings_create d offs o
    rw [show (d.create offs o).forceDefaults = d.forceDefaults from congrArg Prod.fst hsettings] at hall
    rw [hsettings] at hforce
    refine ⟨hidle', hsuffix.trans hsuffix', hforce, d.createdAt offs o :: new, ?_, .cons ?_ hall⟩
    · exact hnew.trans (List.append_assoc _ _ _)
    · have hmono := (hat.suffix hsuffix').append hv le_rfl (d.createdAt offs o :: new)
      have hall : (d.createObjects (o :: objects) offs).2 = offs ++ d.createdAt offs o :: new :=
        hnew.trans (List.append_assoc _ _ _)
      rw [hall]
      exact hmono

theorem length_createObjects (hd : d.Idle) (hv : ObjectsValid offs.length objects)
    (hoffs : ∀ x ∈ offs, x ≤ d.data.length) :
    (d.createObjects objects offs).1.data.length ≤
      d.data.length + (objects.map Object.cost).sum := by
  induction objects generalizing d offs with
  | nil => exact Nat.le_add_right _ _
  | cons o objects ih =>
    obtain ⟨hv, hrest⟩ := hv
    obtain ⟨-, hidle, -⟩ := create_spec hd hv hoffs
    have hlen := length_create hd hv hoffs
    have hoffs' := le_create hd hv hoffs
    have hrest' : ObjectsValid (offs ++ [d.createdAt offs o]).length objects := by
      rw [List.length_append]
      exact hrest
    have htail := ih hidle hrest' hoffs'
    rw [List.map_cons, List.sum_cons]
    change ((d.create offs o).createObjects objects _).1.data.length ≤ _
    omega

def withRoot (rest : List UInt8) (root : ℕ) : List UInt8 := encode 4 (4 + rest.length - root) ++ rest

def withSize (sizePrefix : Bool) (body : List UInt8) : List UInt8 :=
  (if sizePrefix then encode 4 body.length else []) ++ body

theorem finish_spec (hroot : root ≤ d.data.length) (sizePrefix : Bool) :
    ∃ rest, d.data <:+ rest ∧ rest.length % 4 = 0 ∧
      (d.finish root sizePrefix).data = withSize sizePrefix (withRoot rest root) := by
  let prefixSize := if sizePrefix then 4 else 0
  let d₁ : Draft := { d.trackMinAlign prefixSize with vtables := [], fieldLocs := [] }
  let d₂ := d₁.padTo (prefixSize + 4) d₁.minalign
  let d₃ := (d₂.padTo 0 4).pushElement 4 (d₂.reference root)
  have h₂ : d.data <:+ d₂.data := d₁.suffix_padTo _ _
  have h₂' : d₂.data <:+ (d₂.padTo 0 4).data := d₂.suffix_padTo 0 4
  have hle := (h₂.trans h₂').length_le
  have haligned : (d₂.padTo 0 4).data.length % 4 = 0 := aligned_padTo (.inr rfl) 0
  have hdist : d₂.reference root = 4 + (d₂.padTo 0 4).data.length - root := by
    unfold reference
    omega
  have h₃ : d₃.data = encode 4 (4 + (d₂.padTo 0 4).data.length - root) ++ (d₂.padTo 0 4).data := by
    rw [← hdist]
    exact congrArg (encode 4 _ ++ ·) (padTo_aligned haligned)
  have h₃len : d₃.data.length % 4 = 0 := aligned_pushElement (.inr rfl) _
  refine ⟨(d₂.padTo 0 4).data, h₂.trans h₂', haligned, ?_⟩
  change (if sizePrefix then d₃.pushElement 4 d₃.data.length else d₃).data = _
  unfold withSize withRoot
  rw [← h₃]
  split_ifs
  · exact congrArg (encode 4 _ ++ ·) (padTo_aligned h₃len)
  · rfl

theorem settings_finish (d : Draft) (root : ℕ) (sizePrefix : Bool) :
    (d.finish root sizePrefix).settings = d.settings := by
  cases sizePrefix <;> rfl

theorem length_finish (hd : d.Idle) (root : ℕ) (sizePrefix : Bool) :
    (d.finish root sizePrefix).data.length ≤ d.data.length + 20 := by
  let prefixSize := if sizePrefix then 4 else 0
  let d₁ : Draft := { d.trackMinAlign prefixSize with vtables := [], fieldLocs := [] }
  let d₂ := d₁.padTo (prefixSize + 4) d₁.minalign
  let d₃ := (d₂.padTo 0 4).pushElement 4 (d₂.reference root)
  have hfour : (4 : ℕ) = 1 ∨ 4 = 4 := .inr rfl
  have hmin : d₁.minalign = 1 ∨ d₁.minalign = 4 := by
    have hd := hd.minalign
    change max d.minalign (if sizePrefix then 4 else 0) = 1 ∨
      max d.minalign (if sizePrefix then 4 else 0) = 4
    split_ifs <;> omega
  have h₂ : d₂.data.length ≤ d.data.length + 3 := length_padTo (d := d₁) hmin _
  have h₂' := length_padTo (d := d₂) hfour 0
  have h₃ := length_pushElement_le (d := d₂.padTo 0 4) hfour (d₂.reference root)
  have h₄ := length_pushElement_le (d := d₃) hfour d₃.data.length
  have h₃' : d₃.data.length ≤ d.data.length + 13 := h₃.trans (by omega)
  change (if sizePrefix then d₃.pushElement 4 d₃.data.length else d₃).data.length ≤ _
  split_ifs <;> omega

end Draft

open Draft

/-- A finished buffer holds its objects, each at its place in `rest`. -/
structure Finished (forceDefaults : Bool) (objects : List Object) (root : ℕ) (sizePrefix : Bool)
    (bytes rest : List UInt8) (offs : List ℕ) : Prop where
  aligned : rest.length % 4 = 0
  bytes : bytes = withSize sizePrefix (withRoot rest (offs.getD root 0))
  objects : List.Forall₂ (fun o off => o.At rest forceDefaults offs off) objects offs

theorem serialize_spec {forceDefaults dedupVtables sizePrefix : Bool} {objects : List Object}
    {root : ℕ} (hv : ObjectsValid 0 objects) :
    ∃ rest offs, Finished forceDefaults objects root sizePrefix
      (serialize forceDefaults dedupVtables objects root sizePrefix) rest offs := by
  let r := (Draft.empty forceDefaults dedupVtables).createObjects objects []
  have hvalid : ObjectsValid ([] : List ℕ).length objects := hv
  obtain ⟨-, -, -, new, hnew, hall⟩ := createObjects_spec
    (idle_empty forceDefaults dedupVtables) hvalid fun _ h => (nomatch h)
  rw [List.nil_append] at hnew
  rw [← hnew] at hall
  have hle (x : ℕ) (hx : x ∈ r.2) : x ≤ r.1.data.length := by
    obtain ⟨o, -, hat⟩ := exists_of_forall₂_right hall hx
    exact hat.le
  have hroot : r.2.getD root 0 ≤ r.1.data.length := by
    rw [List.getD_eq_getElem?_getD]
    rcases Nat.lt_or_ge root r.2.length with hi | hi
    · rw [List.getElem?_eq_getElem hi]
      exact hle _ (List.getElem_mem hi)
    · rw [List.getElem?_eq_none hi]
      exact Nat.zero_le _
  obtain ⟨rest, hsuffix, haligned, hbytes⟩ := finish_spec hroot sizePrefix
  exact ⟨rest, r.2, haligned, hbytes, hall.imp fun _ _ h => h.suffix hsuffix⟩

theorem length_serialize {forceDefaults dedupVtables : Bool} {objects : List Object}
    (hv : ObjectsValid 0 objects) (root : ℕ) (sizePrefix : Bool) :
    (serialize forceDefaults dedupVtables objects root sizePrefix).length ≤
      (objects.map Object.cost).sum + 20 := by
  let r := (Draft.empty forceDefaults dedupVtables).createObjects objects []
  have hvalid : ObjectsValid ([] : List ℕ).length objects := hv
  have hempty := idle_empty forceDefaults dedupVtables
  have hoffs (x : ℕ) (hx : x ∈ ([] : List ℕ)) : x ≤ (empty forceDefaults dedupVtables).data.length :=
    (nomatch hx)
  have hidle : r.1.Idle := (createObjects_spec hempty hvalid hoffs).1
  have hle : r.1.data.length ≤ 0 + (objects.map Object.cost).sum :=
    length_createObjects hempty hvalid hoffs
  have hfinish := length_finish hidle (r.2.getD root 0) sizePrefix
  change (r.1.finish (r.2.getD root 0) sizePrefix).data.length ≤ _
  omega

theorem at_getD {forceDefaults : Bool} {objects : List Object} {rest : List UInt8} {offs : List ℕ}
    (h : List.Forall₂ (fun o off => o.At rest forceDefaults offs off) objects offs) {i : ℕ}
    {o : Object} (hi : objects[i]? = some o) : o.At rest forceDefaults offs (offs.getD i 0) := by
  obtain ⟨hlt, ho⟩ := List.getElem?_eq_some_iff.mp hi
  have hlen := h.length_eq
  have hget := h.get hlt (hlen ▸ hlt)
  change Object.At _ _ _ _ objects[i] at hget
  rw [ho] at hget
  rw [List.getD_eq_getElem?_getD, List.getElem?_eq_getElem (hlen ▸ hlt)]
  exact hget

/-- A buffer as the application asks for it. -/
structure Job where
  objects : List Object
  root : ℕ
  sizePrefix : Bool

namespace Job

def build (j : Job) : Build (List UInt8) := buildBuffer j.objects j.root j.sizePrefix

/-- A buffer nobody asks for any more, and `Reset` or `Clear` for the next one. -/
def buildAndDrop (j : Job × Bool) : Build Unit := do
  let _ ← j.1.build
  if j.2 then FlatBufferBuilder.reset else FlatBufferBuilder.clear

/-- What a builder is used for: its settings, earlier buffers, and the one that counts. -/
def buildAfter (forceDefaults dedupVtables : Bool) (earlier : List (Job × Bool)) (j : Job) :
    Build (List UInt8) := do
  setForceDefaults forceDefaults
  setDedupVtables dedupVtables
  earlier.forM buildAndDrop
  j.build

/-- The root is a table, and the buffer stays below the largest size. -/
structure Valid (j : Job) : Prop where
  objects : ObjectsValid 0 j.objects
  root : ∃ fields, j.objects[j.root]? = some (.table fields)
  size : (j.objects.map Object.cost).sum + 20 < maxBufferSize

end Job

namespace FlatBufferBuilder

variable {b : FlatBufferBuilder} {d : Draft} {offs : List ℕ} {o : Object} {objects : List Object}
  {k : ℕ}

theorem returns_create (h : b.Represents d) (hd : d.Idle) (hv : o.Valid k)
    (hoffs : ∀ x ∈ offs, x ≤ d.data.length) (hn : d.data.length + o.cost < maxBufferSize) :
    Returns (o.create offs) b fun off b' =>
      b'.Represents (d.create offs o) ∧ off = d.createdAt offs o := by
  cases o with
  | string str =>
    exact returns_createStringOrNull h hd.nested hd.fieldLocs ((length_create hd hv hoffs).trans_lt hn)
  | table fields =>
    have hcount : (calls offs fields).length = fields.length := List.length_map _
    have hcost : d.data.length + (7 * fields.length + 7 + (maxField (fields.map Prod.fst) + 4)) <
        maxBufferSize := hn
    refine returns_createTable h hd (accepts_calls hv hoffs) ?_
    rw [map_field_calls]
    omega

theorem returns_createObjects (h : b.Represents d) (hd : d.Idle)
    (hv : ObjectsValid offs.length objects) (hoffs : ∀ x ∈ offs, x ≤ d.data.length)
    (hn : d.data.length + (objects.map Object.cost).sum < maxBufferSize) :
    Returns (EchoIocp.createObjects objects offs) b fun offs' b' =>
      b'.Represents (d.createObjects objects offs).1 ∧
        offs' = (d.createObjects objects offs).2 := by
  induction objects generalizing b d offs with
  | nil => exact Returns.pure ⟨h, rfl⟩
  | cons o objects ih =>
    obtain ⟨hv, hrest⟩ := hv
    obtain ⟨-, hidle, -⟩ := create_spec hd hv hoffs
    have hlen := length_create hd hv hoffs
    rw [List.map_cons, List.sum_cons] at hn
    have hoffs' := le_create hd hv hoffs
    have hrest' : ObjectsValid (offs ++ [d.createdAt offs o]).length objects := by
      rw [List.length_append]
      exact hrest
    refine (returns_create h hd hv hoffs (by omega)).bind fun off b₁ hb => ?_
    obtain ⟨h₁, rfl⟩ := hb
    exact ih h₁ hidle hrest' hoffs' (by omega)

theorem returns_build {j : Job} {forceDefaults dedupVtables : Bool} (hj : j.Valid)
    (h : b.Represents (Draft.empty forceDefaults dedupVtables)) :
    Returns j.build b fun bytes b' =>
      bytes = serialize forceDefaults dedupVtables j.objects j.root j.sizePrefix ∧
        ∃ d, b'.Represents d ∧ d.settings = (forceDefaults, dedupVtables) := by
  let r := (Draft.empty forceDefaults dedupVtables).createObjects j.objects []
  have hn := hj.size
  have hvalid : ObjectsValid ([] : List ℕ).length j.objects := hj.objects
  obtain ⟨hidle, -, hsettings, new, hnew, hall⟩ := createObjects_spec
    (idle_empty forceDefaults dedupVtables) hvalid fun _ h => (nomatch h)
  rw [List.nil_append] at hnew
  rw [← hnew] at hall
  -- the root is one of the objects, and a table does not lie at the very end
  obtain ⟨fields, hfields⟩ := hj.root
  have hroot : (Object.table fields).At r.1.data forceDefaults r.2 (r.2.getD j.root 0) :=
    at_getD hall hfields
  have h0 : r.2.getD j.root 0 ≠ 0 := by
    obtain ⟨use, vtable, htable⟩ := hroot
    have hlen := htable.link.length_le
    rw [length_encode] at hlen
    omega
  have hcreate : Returns (EchoIocp.createObjects j.objects []) b fun offs b' =>
      b'.Represents r.1 ∧ offs = r.2 :=
    returns_createObjects h (idle_empty _ _) hvalid (fun _ h => nomatch h)
      (show 0 + (j.objects.map Object.cost).sum < maxBufferSize by omega)
  have hle : r.1.data.length ≤ 0 + (j.objects.map Object.cost).sum :=
    length_createObjects (idle_empty forceDefaults dedupVtables) hvalid fun _ h => (nomatch h)
  refine hcreate.bind fun offs b₁ hb => ?_
  obtain ⟨h₁, rfl⟩ := hb
  have hlen : (r.1.finish (r.2.getD j.root 0) j.sizePrefix).data.length ≤ r.1.data.length + 20 :=
    length_finish hidle _ _
  have hfin : (r.1.finish (r.2.getD j.root 0) j.sizePrefix).data.length < maxBufferSize := by omega
  refine (returns_finish h₁ hidle.finished hidle.nested hidle.fieldLocs hidle.minalign h0 hroot.le
    hfin).bind fun _ b₂ h₂ => ?_
  refine (returns_bufferBytes h₂ rfl hfin).mono fun bytes b₃ hb => ?_
  obtain ⟨rfl, rfl⟩ := hb
  exact ⟨rfl, _, h₂, (settings_finish _ _ _).trans hsettings⟩

theorem returns_buildAndDrop {j : Job × Bool} {forceDefaults dedupVtables : Bool} (hj : j.1.Valid)
    (h : b.Represents (Draft.empty forceDefaults dedupVtables)) :
    Returns (Job.buildAndDrop j) b fun _ b' =>
      b'.Represents (Draft.empty forceDefaults dedupVtables) := by
  refine (returns_build hj h).bind fun bytes b₁ hb => ?_
  obtain ⟨-, d, h₁, hd⟩ := hb
  have hforce : d.forceDefaults = forceDefaults := congrArg Prod.fst hd
  have hdedup : d.dedupVtables = dedupVtables := congrArg Prod.snd hd
  rw [← hforce, ← hdedup]
  split_ifs
  · exact returns_reset h₁
  · exact returns_clear h₁

theorem returns_buildAfter {forceDefaults dedupVtables : Bool} {earlier : List (Job × Bool)}
    {j : Job} (allocator : Allocator) (initialSize : ℕ) (hearlier : ∀ e ∈ earlier, e.1.Valid)
    (hj : j.Valid) :
    Returns (Job.buildAfter forceDefaults dedupVtables earlier j) (construct allocator initialSize)
      fun bytes _ => bytes =
        serialize forceDefaults dedupVtables j.objects j.root j.sizePrefix := by
  have h := represents_construct allocator initialSize
  refine Returns.bind (Q := fun _ b => b.Represents (Draft.empty forceDefaults true))
    (Returns.modify ⟨h.shows, rfl, rfl, rfl, rfl, rfl, rfl, rfl⟩) fun _ b₁ h₁ => ?_
  refine Returns.bind (Q := fun _ b => b.Represents (Draft.empty forceDefaults dedupVtables))
    (Returns.modify ⟨h₁.shows, h₁.numFieldLoc, h₁.maxVoffset, h₁.minalign, h₁.nested, h₁.finished,
      h₁.forceDefaults, rfl⟩) fun _ b₂ h₂ => ?_
  refine (Returns.forM (fun l b => b.Represents (Draft.empty forceDefaults dedupVtables) ∧
    ∀ e ∈ l, e.1.Valid) ⟨h₂, hearlier⟩ fun e l b hb => ?_).bind fun _ b₃ h₃ => ?_
  · refine (returns_buildAndDrop (hb.2 e List.mem_cons_self) hb.1).mono fun _ b' h' => ?_
    exact ⟨h', fun x hx => hb.2 x (List.mem_cons_of_mem _ hx)⟩
  · exact (returns_build hj h₃.1).mono fun _ _ hb => hb.1

end FlatBufferBuilder

/-- A table with a string and a flag. -/
def greeting : Job where
  objects := [.string (some [104, 105]), .table [(4, .object 0), (6, .scalar 1 1 0)]]
  root := 1
  sizePrefix := false

theorem greeting_valid : greeting.Valid where
  objects := by
    refine ⟨trivial, ⟨?_, by decide, by decide, by decide, by decide, by decide⟩, trivial⟩
    intro f hf
    rcases List.mem_cons.mp hf with rfl | hf
    · exact Nat.one_pos
    · obtain rfl := List.mem_singleton.mp hf
      exact ⟨.inl rfl, by decide⟩
  root := ⟨_, rfl⟩
  size := by decide

/-- Every object asked for is in the finished buffer, with what it was given; whatever the
allocator returned and whatever the builder was used for before. -/
theorem built_reads_back {forceDefaults dedupVtables : Bool} {earlier : List (Job × Bool)} {j : Job}
    (allocator : Allocator) (initialSize : ℕ) (hearlier : ∀ e ∈ earlier, e.1.Valid)
    (hj : j.Valid) :
    Returns (j.buildAfter forceDefaults dedupVtables earlier) (construct allocator initialSize)
      fun bytes _ => ∃ rest offs,
        Finished forceDefaults j.objects j.root j.sizePrefix bytes rest offs := by
  refine (returns_buildAfter allocator initialSize hearlier hj).mono fun bytes b hb => ?_
  rw [hb]
  exact serialize_spec hj.objects

/-- The second buffer of a builder, in memory that held other bytes. -/
theorem built_reads_back_greeting : Returns (greeting.buildAfter false true [(greeting, true)])
    (construct ⟨fun n => List.replicate n 0xCD, fun _ => List.length_replicate⟩ 1024)
      fun bytes _ => ∃ rest offs,
        Finished false greeting.objects greeting.root greeting.sizePrefix bytes rest offs :=
  built_reads_back _ _ (fun _ h => List.mem_singleton.mp h ▸ greeting_valid) greeting_valid

/-- The bytes of a buffer are a matter of its objects alone. -/
theorem built_bytes_agree {forceDefaults dedupVtables : Bool} {earlier earlier' : List (Job × Bool)}
    {j : Job} (allocator allocator' : Allocator) (initialSize initialSize' : ℕ)
    (hearlier : ∀ e ∈ earlier, e.1.Valid) (hearlier' : ∀ e ∈ earlier', e.1.Valid) (hj : j.Valid) :
    ∃ bytes, Returns (j.buildAfter forceDefaults dedupVtables earlier)
        (construct allocator initialSize) (fun r _ => r = bytes) ∧
      Returns (j.buildAfter forceDefaults dedupVtables earlier')
        (construct allocator' initialSize') fun r _ => r = bytes :=
  ⟨_, returns_buildAfter allocator initialSize hearlier hj,
    returns_buildAfter allocator' initialSize' hearlier' hj⟩

theorem built_bytes_agree_greeting : ∃ bytes,
    Returns (greeting.buildAfter false true []) (construct ⟨fun n => List.replicate n 0xCD,
      fun _ => List.length_replicate⟩ 1024) (fun r _ => r = bytes) ∧
    Returns (greeting.buildAfter false true [(greeting, false)]) (construct
      ⟨fun n => List.replicate n 0, fun _ => List.length_replicate⟩ 16) fun r _ => r = bytes :=
  built_bytes_agree _ _ _ _ (fun _ h => (nomatch h))
    (fun _ h => List.mem_singleton.mp h ▸ greeting_valid) greeting_valid

end EchoIocp
