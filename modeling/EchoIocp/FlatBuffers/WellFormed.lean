import EchoIocp.FlatBuffers.Verifier
import EchoIocp.Lib.LittleEndian

namespace EchoIocp

open Verifier

/-- The fields of the generated tables: scalars of one or four bytes and strings, at even entries
of the vtable. -/
def TableField.Regular : TableField → Prop
  | .scalar field width => field % 2 = 0 ∧ (width = 1 ∨ width = 4)
  | .string field => field % 2 = 0

instance : DecidablePred TableField.Regular
  | .scalar field width => inferInstanceAs (Decidable (field % 2 = 0 ∧ (width = 1 ∨ width = 4)))
  | .string field => inferInstanceAs (Decidable (field % 2 = 0))

namespace Packet

variable (p : Packet)

/-- The bytes lie inside the packet, which is longer than they are. -/
def Fits (pos len : ℕ) : Prop := len < p.dataSize ∧ pos + len ≤ p.dataSize

def vtablePos (tableo : ℕ) : ℤ := tableo - toSigned 4 (p.scalar tableo 4)

def vtableSize (tableo : ℕ) : ℕ := p.scalar (p.vtablePos tableo) 2

/-- What `GetOptionalFieldOffset` finds in the vtable of a table. -/
def fieldOffset (tableo field : ℕ) : ℕ :=
  if field < p.vtableSize tableo then p.scalar (p.vtablePos tableo + field) 2 else 0

def target (tableo field : ℕ) : ℕ :=
  tableo + p.fieldOffset tableo field + p.scalar (tableo + p.fieldOffset tableo field : ℕ) 4

structure TableInside (tableo : ℕ) : Prop where
  aligned : tableo % 4 = 0
  fits : p.Fits tableo 4
  nonneg : 0 ≤ p.vtablePos tableo
  vtableAligned : p.vtablePos tableo % 2 = 0
  vtableFits : p.Fits (p.vtablePos tableo).toNat 2
  even : p.vtableSize tableo % 2 = 0
  vtable : p.Fits (p.vtablePos tableo).toNat (p.vtableSize tableo)

structure OffsetInside (start : ℕ) : Prop where
  aligned : start % 4 = 0
  fits : p.Fits start 4
  pos : 0 < p.scalar start 4
  lt : p.scalar start 4 < 2 ^ 31
  target : p.Fits (start + p.scalar start 4) 1

/-- The bytes of a vector of bytes, with its length in front. -/
def VectorInside (vec : ℕ) : Prop :=
  vec % 4 = 0 ∧ p.Fits vec 4 ∧ p.scalar vec 4 < maxSize ∧ p.Fits vec (4 + p.scalar vec 4)

structure StringInside (str : ℕ) : Prop where
  aligned : str % 4 = 0
  fits : p.Fits str 4
  lt : p.scalar str 4 < maxSize
  bytes : p.Fits str (4 + p.scalar str 4)
  terminator : p.Fits (str + (4 + p.scalar str 4)) 1
  zero : p.scalar (str + (4 + p.scalar str 4) : ℕ) 1 = 0

/-- A field that is present can be read, and so can the string it points to. -/
def FieldInside (tableo : ℕ) : TableField → Prop
  | .scalar field width => p.fieldOffset tableo field ≠ 0 →
      (tableo + p.fieldOffset tableo field) % width = 0 ∧
        p.Fits (tableo + p.fieldOffset tableo field) width
  | .string field => p.fieldOffset tableo field ≠ 0 →
      p.OffsetInside (tableo + p.fieldOffset tableo field) ∧ p.StringInside (p.target tableo field)

/-- The table and all its fields can be read. -/
def TableWith (fields : List TableField) (tableo : ℕ) : Prop :=
  p.TableInside tableo ∧ ∀ f ∈ fields, p.FieldInside tableo f

variable {p} {pos len width align start tableo field n depth numTables : ℕ} {v : Verifier}

theorem verifyAlignment_iff (h : align = 1 ∨ align = 2 ∨ align = 4) :
    verifyAlignment pos align = true ↔ pos % align = 0 := by
  unfold verifyAlignment
  rw [beq_iff_eq]
  rcases h with rfl | rfl | rfl
  · rw [Nat.sub_self, Nat.and_zero]
    omega
  · rw [Nat.and_two_pow_sub_one_eq_mod _ 1]
  · rw [Nat.and_two_pow_sub_one_eq_mod _ 2]

theorem verify_iff : p.verify pos len = true ↔ p.Fits pos len := by
  unfold verify Fits
  rw [Bool.and_eq_true, decide_eq_true_iff, decide_eq_true_iff]
  omega

theorem verifyScalar_iff (h : width = 1 ∨ width = 2 ∨ width = 4) :
    p.verifyScalar pos width = true ↔ pos % width = 0 ∧ p.Fits pos width := by
  unfold verifyScalar
  rw [Bool.and_eq_true, verifyAlignment_iff h, verify_iff]

theorem scalar_lt (p : Packet) (pos : ℤ) (width : ℕ) : p.scalar pos width < 256 ^ width := by
  have hlt := LittleEndian.decode_lt (((p.buffer.getD []).drop pos.toNat).take width)
  have hle : (((p.buffer.getD []).drop pos.toNat).take width).length ≤ width := List.length_take_le _ _
  exact hlt.trans_le (Nat.pow_le_pow_right (by omega) hle)

theorem toSigned_nonneg (hn : n < 2 ^ 32) : 0 ≤ toSigned 4 n ↔ n < 2 ^ 31 := by
  have hmod : (BitVec.ofNat (8 * 4) n).toNat = n := Nat.mod_eq_of_lt hn
  unfold toSigned
  rw [BitVec.toInt_eq_toNat_cond, hmod]
  split_ifs <;> omega

theorem toSigned_bounds (n : ℕ) : -2 ^ 31 ≤ toSigned 4 n ∧ toSigned 4 n < 2 ^ 31 := by
  have hlo := BitVec.le_two_mul_toInt (x := BitVec.ofNat (8 * 4) n)
  have hhi := BitVec.two_mul_toInt_lt (x := BitVec.ofNat (8 * 4) n)
  unfold toSigned
  omega

theorem readScalar_of_fits (hb : p.buffer ≠ none) (h : p.Fits pos width) :
    p.readScalar (some pos) width = some (p.scalar pos width) :=
  readScalar_of_inside hb (Int.natCast_nonneg _) (by have := h.2; omega)

theorem TableInside.getOptionalFieldOffset (h : p.TableInside tableo) (hb : p.buffer ≠ none)
    (heven : field % 2 = 0) :
    p.getOptionalFieldOffset (some tableo) field = some (p.fieldOffset tableo field) := by
  have hvt := h.vtableFits.2
  have hsize := h.vtable.2
  have hnn := h.nonneg
  have hev := h.even
  have hvread : p.readScalar (some (p.vtablePos tableo)) 2 = some (p.vtableSize tableo) :=
    readScalar_of_inside hb hnn (by omega)
  unfold Packet.getOptionalFieldOffset getVTable
  rw [readScalar_of_fits hb h.fits, Option.map_some, Option.map_some, Option.bind_some,
    ← vtablePos, hvread, Option.bind_some]
  unfold fieldOffset
  split_ifs with hlt
  · -- a vtable of even size that reaches past the entry holds all of it
    have hpos : 0 ≤ p.vtablePos tableo + field := by omega
    have hin : p.vtablePos tableo + field + (2 : ℕ) ≤ p.dataSize := by omega
    exact readScalar_of_inside hb hpos hin
  · rfl

theorem TableInside.getPointer (h : p.TableInside tableo) (hb : p.buffer ≠ none)
    (heven : field % 2 = 0)
    (hfits : p.fieldOffset tableo field ≠ 0 → p.Fits (tableo + p.fieldOffset tableo field) 4) :
    p.getPointer (some tableo) field =
      some (if p.fieldOffset tableo field = 0 then none else some (p.target tableo field : ℤ)) := by
  unfold Packet.getPointer
  rw [h.getOptionalFieldOffset hb heven, Option.bind_some]
  by_cases hne : p.fieldOffset tableo field = 0
  · rw [if_pos hne, if_neg (not_not.mpr hne)]
  · have hread := readScalar_of_fits hb (hfits hne)
    rw [Nat.cast_add] at hread
    rw [if_neg hne, if_pos hne, Option.map_some, hread]
    unfold target
    rw [Option.map_some, Option.map_some, Nat.cast_add, Nat.cast_add]

theorem decides_load_bind {f : ℕ → Check} {P : Prop} {w : Verifier} (hb : p.buffer ≠ none)
    (h : p.Fits pos width) (hf : Decides (f (p.scalar pos width)) v P w) :
    Decides (p.load pos width >>= f) v P w :=
  Decides.lift_bind (readScalar_of_fits hb h) hf

theorem decides_complexity (hd : depth < maxDepth) (hn : numTables < maxTables) :
    Decides verifyComplexity ⟨depth, numTables⟩ True ⟨depth + 1, numTables + 1⟩ := by
  have hdepth : (depth + 1) % 2 ^ 32 = depth + 1 := Nat.mod_eq_of_lt (by unfold maxDepth at hd; omega)
  have htables : (numTables + 1) % 2 ^ 32 = numTables + 1 :=
    Nat.mod_eq_of_lt (by unfold maxTables at hn; omega)
  refine Returns.bind (Q := fun _ w => w = ⟨depth + 1, numTables + 1⟩)
    (Returns.modify (by rw [hdepth, htables])) fun _ w hw => ?_
  subst hw
  refine Returns.get_bind (Decides.pure ?_)
  have hd' : depth + 1 ≤ maxDepth := hd
  have hn' : numTables + 1 ≤ maxTables := hn
  simp [hd', hn']

theorem decides_endTable : Decides verifyEndTable ⟨depth + 1, numTables⟩ True
    ⟨(depth + 1 + 2 ^ 32 - 1) % 2 ^ 32, numTables⟩ := by
  refine Returns.bind (Q := fun _ w => w = ⟨(depth + 1 + 2 ^ 32 - 1) % 2 ^ 32, numTables⟩)
    (Returns.modify rfl) fun _ w hw => ?_
  subst hw
  exact Decides.pure ⟨fun _ => trivial, fun _ => rfl⟩

theorem decides_vtable (hb : p.buffer ≠ none) (vtableo : ℕ) :
    Decides (p.verifyVtable vtableo) v (vtableo % 2 = 0 ∧ p.Fits vtableo 2 ∧
      p.scalar vtableo 2 % 2 = 0 ∧ p.Fits vtableo (p.scalar vtableo 2)) v := by
  refine Decides.ite (fun h => ?_) fun h hall => h ?_
  · obtain ⟨haligned, hfits⟩ := (verifyScalar_iff (.inr (.inl rfl))).mp h
    refine decides_load_bind hb hfits (Decides.pure ?_)
    rw [Bool.and_eq_true, Bool.and_eq_true, verifyAlignment_iff (.inr (.inl rfl)), verify_iff,
      beq_iff_eq, Nat.and_one_is_mod]
    exact ⟨fun h => ⟨haligned, hfits, h.1.1, h.2⟩, fun h => ⟨⟨h.2.2.1, h.2.2.1⟩, h.2.2.2⟩⟩
  · exact (verifyScalar_iff (.inr (.inl rfl))).mpr ⟨hall.1, hall.2.1⟩

/-- A difference below 0 has wrapped around to the end of `size_t`. -/
theorem vtablePos_toNat (hsize : p.dataSize < maxSize) (hfits : p.Fits tableo 4)
    (h : p.Fits (p.vtablePos tableo % 2 ^ 64).toNat 2) :
    0 ≤ p.vtablePos tableo := by
  have hbounds := toSigned_bounds (p.scalar tableo 4)
  have h1 := hfits.2
  have h2 := h.2
  unfold maxSize at hsize
  unfold vtablePos at h2 ⊢
  omega

theorem tableInside_iff (hsize : p.dataSize < maxSize) (haligned : tableo % 4 = 0)
    (hfits : p.Fits tableo 4) :
    ((p.vtablePos tableo % 2 ^ 64).toNat % 2 = 0 ∧ p.Fits (p.vtablePos tableo % 2 ^ 64).toNat 2 ∧
      p.scalar (p.vtablePos tableo % 2 ^ 64).toNat 2 % 2 = 0 ∧
      p.Fits (p.vtablePos tableo % 2 ^ 64).toNat
        (p.scalar (p.vtablePos tableo % 2 ^ 64).toNat 2)) ↔ p.TableInside tableo := by
  have hlt := hfits.2
  have hbounds := toSigned_bounds (p.scalar tableo 4)
  have hmod (hnn : 0 ≤ p.vtablePos tableo) : p.vtablePos tableo % 2 ^ 64 = p.vtablePos tableo := by
    unfold maxSize at hsize
    unfold vtablePos at hnn ⊢
    omega
  constructor
  · rintro ⟨h1, h2, h3, h4⟩
    have hnn := vtablePos_toNat hsize hfits h2
    rw [hmod hnn] at h1 h2 h3 h4
    rw [Int.toNat_of_nonneg hnn] at h3 h4
    exact ⟨haligned, hfits, hnn, by omega, h2, h3, h4⟩
  · intro h
    have hnn := h.nonneg
    have hal := h.vtableAligned
    rw [hmod hnn, Int.toNat_of_nonneg hnn]
    exact ⟨by omega, h.vtableFits, h.even, h.vtable⟩

theorem decides_tableStart (hb : p.buffer ≠ none) (hsize : p.dataSize < maxSize)
    (hd : depth < maxDepth) (hn : numTables < maxTables) (tableo : ℕ) :
    Decides (p.verifyTableStart tableo) ⟨depth, numTables⟩ (p.TableInside tableo)
      ⟨depth + 1, numTables + 1⟩ := by
  refine Decides.ite (fun h => ?_) fun h hall => h ?_
  · obtain ⟨haligned, hfits⟩ := (verifyScalar_iff (.inr (.inr rfl))).mp h
    have hinside := tableInside_iff hsize haligned hfits
    refine decides_load_bind hb hfits ?_
    refine Decides.congr ((decides_complexity hd hn).and fun _ => decides_vtable hb _) ?_
    exact ⟨fun h => hinside.mp h.2, fun h => ⟨trivial, hinside.mpr h⟩⟩
  · exact (verifyScalar_iff (.inr (.inr rfl))).mpr ⟨hall.aligned, hall.fits⟩

theorem returns_verifyOffset (hb : p.buffer ≠ none) (start : ℕ) :
    Returns (p.verifyOffset start) v fun o v' => v' = v ∧ (o ≠ 0 ↔ p.OffsetInside start) ∧
      (o ≠ 0 → o = p.scalar start 4) := by
  unfold verifyOffset
  split_ifs with h
  · obtain ⟨haligned, hfits⟩ := (verifyScalar_iff (.inr (.inr rfl))).mp h
    have hlt : p.scalar start 4 < 2 ^ 32 := scalar_lt p start 4
    refine Returns.bind (Returns.lift (Q := fun b s' => b = p.scalar start 4 ∧ s' = v)
      (readScalar_of_fits hb hfits) ⟨rfl, rfl⟩) fun o v' hv => ?_
    obtain ⟨rfl, rfl⟩ := hv
    have hiff : (p.scalar start 4 ≠ 0 ∧ 0 ≤ toSigned 4 (p.scalar start 4) ∧
        p.verify (start + p.scalar start 4) 1 = true) ↔ p.OffsetInside start := by
      rw [toSigned_nonneg hlt, verify_iff]
      exact ⟨fun h => ⟨haligned, hfits, Nat.pos_of_ne_zero h.1, h.2.1, h.2.2⟩,
        fun h => ⟨h.pos.ne', h.lt, h.target⟩⟩
    refine Returns.pure ⟨rfl, ?_⟩
    split_ifs with ho
    · exact ⟨⟨fun _ => hiff.mp ho, fun _ => ho.1⟩, fun _ => rfl⟩
    · exact ⟨⟨fun h => absurd rfl h, fun h => absurd (hiff.mpr h) ho⟩, fun h => absurd rfl h⟩
  · have hno : ¬p.OffsetInside start := fun hin =>
      h ((verifyScalar_iff (.inr (.inr rfl))).mpr ⟨hin.aligned, hin.fits⟩)
    exact Returns.pure ⟨rfl, ⟨fun h => absurd rfl h, fun h => absurd h hno⟩, fun h => absurd rfl h⟩

theorem decides_offsetAt (hb : p.buffer ≠ none) (tableo fieldOffset : ℕ) :
    Decides (p.verifyOffsetAt tableo fieldOffset) v
      (fieldOffset ≠ 0 → p.OffsetInside (tableo + fieldOffset)) v := by
  unfold verifyOffsetAt
  split_ifs with h0
  · exact Decides.pure ⟨fun _ h => absurd h0 h, fun _ => rfl⟩
  · refine Returns.bind (returns_verifyOffset hb _) fun o v' ho => ?_
    obtain ⟨rfl, hiff, -⟩ := ho
    refine Decides.pure ?_
    rw [bne_iff_ne, hiff]
    exact ⟨fun h _ => h, fun h => h h0⟩

theorem returns_load {Q : ℕ → Verifier → Prop} (hb : p.buffer ≠ none) (h : p.Fits pos width)
    (hq : Q (p.scalar pos width) v) : Returns (p.load pos width) v Q :=
  Returns.lift (readScalar_of_fits hb h) hq

theorem returns_verifyVectorOrString (hb : p.buffer ≠ none) (vec : ℕ) :
    Returns (p.verifyVectorOrString vec 1) v fun stop v' => v' = v ∧
      (stop = none ∧ ¬p.VectorInside vec ∨
        stop = some (vec + (4 + p.scalar vec 4)) ∧ p.VectorInside vec) := by
  unfold verifyVectorOrString VectorInside
  split_ifs with h
  · obtain ⟨haligned, hfits⟩ := (verifyScalar_iff (.inr (.inr rfl))).mp h
    refine Returns.bind (returns_load (Q := fun n v' => n = p.scalar vec 4 ∧ v' = v) hb hfits
      ⟨rfl, rfl⟩) fun size v' hv => ?_
    obtain ⟨rfl, rfl⟩ := hv
    refine Returns.pure ⟨rfl, ?_⟩
    rw [Nat.div_one, Nat.one_mul]
    split_ifs with hin
    · exact .inr ⟨rfl, haligned, hfits, hin.1, verify_iff.mp hin.2⟩
    · exact .inl ⟨rfl, fun h => hin ⟨h.2.2.1, verify_iff.mpr h.2.2.2⟩⟩
  · refine Returns.pure ⟨rfl, .inl ⟨rfl, fun hin => h ?_⟩⟩
    exact (verifyScalar_iff (.inr (.inr rfl))).mpr ⟨hin.1, hin.2.1⟩

theorem decides_string (hb : p.buffer ≠ none) (hsize : p.dataSize < maxSize) {str : ℕ}
    (hstr : str ≤ p.dataSize) :
    Decides (p.verifyString (some (str : ℤ))) v (p.StringInside str) v := by
  have hmod : ((str : ℤ) % 2 ^ 64).toNat = str := by
    unfold maxSize at hsize
    omega
  unfold verifyString
  dsimp only
  rw [hmod]
  refine Returns.bind (returns_verifyVectorOrString hb str) fun stop v' h => ?_
  obtain ⟨rfl, ⟨rfl, hvec⟩ | ⟨rfl, hvec⟩⟩ := h
  · exact Decides.fails fun hin => hvec ⟨hin.aligned, hin.fits, hin.lt, hin.bytes⟩
  · refine Decides.ite (fun hend => ?_) fun hend hin => hend (verify_iff.mpr hin.terminator)
    have hfits := verify_iff.mp hend
    refine decides_load_bind hb hfits (Decides.pure ?_)
    rw [beq_iff_eq]
    exact ⟨fun hz => ⟨hvec.1, hvec.2.1, hvec.2.2.1, hvec.2.2.2, hfits, hz⟩, fun hin => hin.zero⟩

theorem decides_field (hb : p.buffer ≠ none) (h : p.TableInside tableo) (heven : field % 2 = 0)
    (hw : width = 1 ∨ width = 2 ∨ width = 4) :
    Decides (p.verifyField tableo field width width) v
      (p.FieldInside tableo (.scalar field width)) v := by
  refine Decides.lift_bind (h.getOptionalFieldOffset hb heven) (Decides.pure ?_)
  rw [Bool.or_eq_true, Bool.and_eq_true, beq_iff_eq, verifyAlignment_iff hw, verify_iff]
  exact ⟨fun h h0 => h.resolve_left h0, fun h => or_iff_not_imp_left.mpr h⟩

theorem decides_offsetField (hb : p.buffer ≠ none) (h : p.TableInside tableo)
    (heven : field % 2 = 0) :
    Decides (p.verifyOffsetField tableo field) v
      (p.fieldOffset tableo field ≠ 0 → p.OffsetInside (tableo + p.fieldOffset tableo field)) v :=
  Decides.lift_bind (h.getOptionalFieldOffset hb heven) (decides_offsetAt hb _ _)

/-- A string is looked for only after its offset was found to lie inside. -/
theorem decides_stringField (hb : p.buffer ≠ none) (hsize : p.dataSize < maxSize)
    (h : p.TableInside tableo) (heven : field % 2 = 0)
    (hin : p.fieldOffset tableo field ≠ 0 →
      p.OffsetInside (tableo + p.fieldOffset tableo field)) :
    Decides (p.verifyStringField tableo field) v
      (p.fieldOffset tableo field ≠ 0 → p.StringInside (p.target tableo field)) v := by
  refine Decides.lift_bind (h.getPointer hb heven fun hne => (hin hne).fits) ?_
  by_cases h0 : p.fieldOffset tableo field = 0
  · rw [if_pos h0]
    exact Decides.pure ⟨fun _ hne => absurd h0 hne, fun _ => rfl⟩
  · have htarget := (hin h0).target.2
    have hle : p.target tableo field ≤ p.dataSize := by
      unfold target
      omega
    rw [if_neg h0]
    exact Decides.congr (decides_string hb hsize hle) ⟨fun hs _ => hs, fun hs => hs h0⟩

theorem decides_fields (hb : p.buffer ≠ none) (hsize : p.dataSize < maxSize)
    (h : p.TableInside tableo) {fields : List TableField} (hf : ∀ f ∈ fields, f.Regular)
    (hd : depth < maxDepth) :
    Decides (p.verifyFields tableo fields) ⟨depth + 1, numTables⟩
      (∀ f ∈ fields, p.FieldInside tableo f) ⟨depth, numTables⟩ := by
  induction fields with
  | nil =>
    have hback : (depth + 1 + 2 ^ 32 - 1) % 2 ^ 32 = depth := by
      unfold maxDepth at hd
      omega
    have hend : Decides verifyEndTable ⟨depth + 1, numTables⟩ True
        ⟨(depth + 1 + 2 ^ 32 - 1) % 2 ^ 32, numTables⟩ := decides_endTable
    rw [hback] at hend
    exact Decides.congr hend ⟨fun _ _ h => (nomatch h), fun _ => trivial⟩
  | cons f fields ih =>
    have hrest := ih fun x hx => hf x (List.mem_cons_of_mem _ hx)
    have hreg := hf f List.mem_cons_self
    refine Decides.congr (P := p.FieldInside tableo f ∧ ∀ f ∈ fields, p.FieldInside tableo f) ?_
      List.forall_mem_cons.symm
    cases f with
    | scalar field width => exact (decides_field hb h hreg.1 (hreg.2.imp_right .inr)).and fun _ => hrest
    | string field =>
      refine Decides.congr ((decides_offsetField hb h hreg).and fun hin =>
        (decides_stringField hb hsize h hreg hin).and fun _ => hrest) ?_
      rw [← and_assoc]
      exact and_congr_left' ⟨fun h hne => ⟨h.1 hne, h.2 hne⟩,
        fun h => ⟨fun hne => (h hne).1, fun hne => (h hne).2⟩⟩

theorem decides_table (hb : p.buffer ≠ none) (hsize : p.dataSize < maxSize)
    {fields : List TableField} (hf : ∀ f ∈ fields, f.Regular) (hd : depth < maxDepth)
    (hn : numTables < maxTables) (tableo : ℕ) :
    Decides (p.verifyTable fields tableo) ⟨depth, numTables⟩ (p.TableWith fields tableo)
      ⟨depth, numTables + 1⟩ :=
  (decides_tableStart hb hsize hd hn tableo).and fun h => decides_fields hb hsize h hf hd

theorem decides_tablePtr (hb : p.buffer ≠ none) (hsize : p.dataSize < maxSize)
    {fields : List TableField} (hf : ∀ f ∈ fields, f.Regular) (hd : depth < maxDepth)
    (hn : numTables < maxTables) (htable : tableo ≤ p.dataSize) :
    Decides (p.verifyTablePtr fields (some (tableo : ℤ))) ⟨depth, numTables⟩
      (p.TableWith fields tableo) ⟨depth, numTables + 1⟩ := by
  have hmod : ((tableo : ℤ) % 2 ^ 64).toNat = tableo := by
    unfold maxSize at hsize
    omega
  unfold verifyTablePtr
  dsimp only
  rw [hmod]
  exact decides_table hb hsize hf hd hn tableo

def rootAt (p : Packet) (start : ℕ) : ℕ := start + p.scalar start 4

theorem decides_bufferFromStart (hb : p.buffer ≠ none) {verifyRoot : ℕ → Check} {P : ℕ → Prop}
    {w : Verifier} (hroot : p.OffsetInside start →
      Decides (verifyRoot (p.rootAt start)) v (P (p.rootAt start)) w) :
    Decides (p.verifyBufferFromStart verifyRoot start) v
      (minBufferSize ≤ p.dataSize ∧ p.OffsetInside start ∧ P (p.rootAt start)) w := by
  refine Decides.ite (fun hmin => ?_) fun hmin h => hmin h.1
  refine Returns.bind (returns_verifyOffset hb start) fun o v' ho => ?_
  obtain ⟨rfl, hiff, heq⟩ := ho
  split_ifs with h0
  · exact Decides.fails fun h => hiff.mpr h.2.1 h0
  · have hin := hiff.mp h0
    rw [heq h0]
    exact Decides.congr (hroot hin) ⟨fun h => ⟨hmin, hin, h⟩, fun h => h.2.2⟩

theorem decides_size (hb : p.buffer ≠ none) :
    Decides p.verifySize v (p.Fits 0 4 ∧ p.scalar 0 4 + 4 ≤ p.dataSize) v := by
  refine Decides.ite (fun h => ?_) fun h hall => h ?_
  · obtain ⟨-, hfits⟩ := (verifyScalar_iff (.inr (.inr rfl))).mp h
    refine decides_load_bind hb hfits (Decides.pure ?_)
    rw [decide_eq_true_iff]
    exact ⟨fun h => ⟨hfits, h⟩, fun h => h.2⟩
  · exact (verifyScalar_iff (.inr (.inr rfl))).mpr ⟨rfl, hall.1⟩

end Packet

end EchoIocp
