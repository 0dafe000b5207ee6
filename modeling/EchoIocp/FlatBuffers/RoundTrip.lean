import EchoIocp.Delivery
import EchoIocp.FlatBuffers.Reading

namespace EchoIocp

open FlatBufferBuilder VectorDownward LittleEndian Verifier Draft

namespace Content

def strings : Content → List CStr
  | .requestLogin name password | .requestRegist name password => [name, password]
  | .requestRoomCreate _ name password | .requestRoomEntrance _ name password => [name, password]
  | .requestSendMessage _ content | .notifyMessage _ content => [content]
  | .notifyRoomlist name => [name]
  | _ => []

/-- The fields of a table, in the order they are added. -/
def operands : Content → List (ℕ × Operand)
  | .none => []
  | .requestLogin _ _ | .requestRegist _ _ => [(6, .object 1), (4, .object 0)]
  | .requestRoomCreate id _ _ | .requestRoomEntrance id _ _ =>
    [(8, .object 1), (6, .object 0), (4, .scalar 4 id.toNat 0)]
  | .requestSendMessage id _ | .notifyMessage id _ => [(6, .object 0), (4, .scalar 4 id.toNat 0)]
  | .notifyRoomlist _ => [(4, .object 0)]
  | .requestRoomLeave id roomId => [(6, .scalar 4 roomId.toNat 0), (4, .scalar 4 id.toNat 0)]
  | .responseLogin id feedback | .responseRegist id feedback
  | .responseRoomCreate id feedback | .responseRoomEntrance id feedback
  | .responseRoomLeave id feedback => [(4, .scalar 4 id.toNat 0), (6, .scalar 1 feedback.toNat 0)]
  | .requestLogout id => [(4, .scalar 4 id.toNat 0)]
  | .responseSendMessage feedback | .responseLogout feedback => [(4, .scalar 1 feedback.toNat 0)]

/-- The null offset of a missing content stands for a missing string. -/
def objects : Content → List Object
  | .none => [.string Option.none]
  | c => c.strings.map .string ++ [.table c.operands]

end Content

/-- The fields of the root, behind `n` objects of which the last is the content. -/
def rootOperands (messageType : MessageType) (content : Content) (n : ℕ) : List (ℕ × Operand) :=
  [(MessageWrapper.vtContent, .object (n - 1)), (vtMessageType, .scalar 4 messageType.value 0),
    (MessageWrapper.vtContentType, .scalar 1 content.enumValue.value 0)]

/-- The root comes after the content. -/
def messageObjects (messageType : MessageType) (content : Content) : List Object :=
  content.objects ++ [.table (rootOperands messageType content content.objects.length)]

theorem createStringOrNull_none : createStringOrNull none = pure 0 := rfl

theorem buildMessage_eq (messageType : MessageType) (content : Content) (sizePrefix : Bool) :
    buildMessage messageType content sizePrefix =
      buildBuffer (messageObjects messageType content) content.objects.length sizePrefix := by
  cases content <;>
    simp [buildMessage, buildBuffer, messageObjects, rootOperands, MessageWrapper.create, createObjects,
      createStringOrNull_none, calls, Operand.add, Object.create, Content.objects, Content.strings,
      Content.operands, Content.create, RequestLogin.createDirect, RequestLogin.create,
      ResponseLogin.create, RequestRegist.createDirect, RequestRegist.create,
      ResponseRegist.create, RequestRoomCreate.createDirect, RequestRoomCreate.create,
      ResponseRoomCreate.create, RequestRoomEntrance.createDirect, RequestRoomEntrance.create,
      ResponseRoomEntrance.create, RequestRoomLeave.create, ResponseRoomLeave.create,
      RequestSendMessage.createDirect, RequestSendMessage.create, ResponseSendMessage.create,
      NotifyMessage.createDirect, NotifyMessage.create, NotifyRoomlist.createDirect,
      NotifyRoomlist.create, RequestLogout.create, ResponseLogout.create]

theorem lookup_of_ne {f : Bool} {adds : List Add} {k : ℕ}
    (h : ∀ a ∈ adds, a.field ≠ k) :
    (adds.flatMap (Add.stored f)).lookup k = none := by
  refine List.lookup_eq_none_iff.mpr fun x hx => ?_
  obtain ⟨a, ha, hmem⟩ := List.mem_flatMap.mp hx
  have hfield := Add.field_stored hmem
  exact bne_iff_ne.mpr fun he => h a ha (hfield ▸ he.symm)

theorem lookup_stored {f : Bool} {adds : List Add} {a : Add}
    (h : adds.Pairwise fun a b => a.field ≠ b.field) (ha : a ∈ adds) :
    (adds.flatMap (Add.stored f)).lookup a.field = (a.stored f).lookup a.field := by
  induction adds with
  | nil => cases ha
  | cons x adds ih =>
    obtain ⟨hx, hrest⟩ := List.pairwise_cons.mp h
    rw [List.flatMap_cons, List.lookup_append]
    rcases List.mem_cons.mp ha with rfl | ha
    · rw [lookup_of_ne fun y hy => (hx y hy).symm, Option.or_none]
    · have hone (y : Add) (hy : y ∈ [x]) : y.field ≠ a.field := List.mem_singleton.mp hy ▸ hx a ha
      have hne : (x.stored f).lookup a.field = none := by
        have hlook := lookup_of_ne (f := f) hone
        rwa [List.flatMap_singleton] at hlook
      rw [hne, Option.none_or, ih hrest ha]

namespace Packet

variable {p : Packet} {bytes rest : List UInt8} {offs : List ℕ} {fields : List (ℕ × Operand)}
  {forceDefaults : Bool} {o field w e i k : ℕ}

theorem lookup_calls (offs : List ℕ) (forceDefaults : Bool) (hv : FieldsValid k fields)
    {operand : Operand}
    (hmem : (field, operand) ∈ fields) :
    ((calls offs fields).flatMap (Add.stored forceDefaults)).lookup field =
      ((operand.add offs field).stored forceDefaults).lookup field := by
  have hcall : operand.add offs field ∈ calls offs fields :=
    List.mem_map.mpr ⟨(field, operand), hmem, rfl⟩
  have hlook := lookup_stored (f := forceDefaults) (Draft.pairwise_calls hv.apart offs) hcall
  rwa [Draft.field_add] at hlook

theorem Carries.operand_scalar (h : p.Carries bytes rest)
    (hat : Object.At rest forceDefaults offs o (.table fields)) (hv : FieldsValid k fields)
    (hmem : (field, .scalar w e 0) ∈ fields) :
    p.FieldInside (p.dataSize - o) (.scalar field w) ∧
      (if p.fieldOffset (p.dataSize - o) field = 0 then 0
        else p.scalar (p.dataSize - o + p.fieldOffset (p.dataSize - o) field : ℕ) w) = e := by
  obtain ⟨use, vt, ht⟩ := hat
  have hlook := lookup_calls offs forceDefaults hv hmem
  refine h.scalarField ht (hv.even _ hmem) (hv.ge _ hmem) ?_
  rw [hlook]
  dsimp only [Operand.add, Add.stored]
  split_ifs with hdef
  · exact .inl ⟨rfl, hdef.1⟩
  · exact .inr (List.lookup_cons_self)

theorem Carries.operand_null (h : p.Carries bytes rest)
    (hat : Object.At rest forceDefaults offs o (.table fields)) (hv : FieldsValid k fields)
    (hmem : (field, .object i) ∈ fields) (h0 : offs.getD i 0 = 0) :
    p.fieldOffset (p.dataSize - o) field = 0 := by
  obtain ⟨use, vt, ht⟩ := hat
  have hlook := lookup_calls offs forceDefaults hv hmem
  refine h.fieldOffset_none ht (hv.even _ hmem) (hv.ge _ hmem) ?_
  rw [hlook]
  dsimp only [Operand.add, Add.stored]
  rw [if_pos h0]
  rfl

theorem Carries.operand_offset (h : p.Carries bytes rest)
    (hat : Object.At rest forceDefaults offs o (.table fields)) (hv : FieldsValid k fields)
    (hmem : (field, .object i) ∈ fields) (h0 : 0 < offs.getD i 0) :
    p.fieldOffset (p.dataSize - o) field ≠ 0 ∧
      p.OffsetInside (p.dataSize - o + p.fieldOffset (p.dataSize - o) field) ∧
      p.target (p.dataSize - o) field = p.dataSize - offs.getD i 0 := by
  obtain ⟨use, vt, ht⟩ := hat
  have hlook := lookup_calls offs forceDefaults hv hmem
  refine h.offsetField ht (hv.even _ hmem) (hv.ge _ hmem) h0 ?_
  rw [hlook]
  dsimp only [Operand.add, Add.stored]
  rw [if_neg h0.ne']
  exact List.lookup_cons_self

theorem Carries.operand_string (h : p.Carries bytes rest)
    (hat : Object.At rest forceDefaults offs o (.table fields)) (hv : FieldsValid k fields)
    (hmem : (field, .object i) ∈ fields) {str : CStr}
    (hstr : Object.At rest forceDefaults offs (offs.getD i 0) (.string str)) :
    p.FieldInside (p.dataSize - o) (.string field) ∧
      p.getString (some ((p.dataSize - o : ℕ) : ℤ)) field = some (str.map cString) := by
  have heven := hv.even _ hmem
  obtain ⟨use, vt, ht⟩ := id hat
  have htable := h.tableInside ht
  cases str with
  | none =>
    have h0 := h.operand_null hat hv hmem hstr
    have hin : p.FieldInside (p.dataSize - o) (.string field) := fun hne => absurd h0 hne
    refine ⟨hin, ?_⟩
    rw [htable.getString h.buffer_ne heven hin, if_pos h0]
    rfl
  | some str =>
    have hs : StringAt rest (offs.getD i 0) (cString str) := hstr
    have hpos : 0 < offs.getD i 0 := by
      have hlen := hs.2.length_le
      rw [List.length_append, length_encode] at hlen
      omega
    obtain ⟨hne, hoff, htarget⟩ := h.operand_offset hat hv hmem hpos
    obtain ⟨hinside, hbytes⟩ := h.string hs
    have hin : p.FieldInside (p.dataSize - o) (.string field) := fun _ => ⟨hoff, htarget ▸ hinside⟩
    refine ⟨hin, ?_⟩
    rw [htable.getString h.buffer_ne heven hin, if_neg hne, htarget, hbytes]
    rfl

end Packet

namespace Content

/-- What is left of a content when its strings end at their terminators. -/
def cut : Content → Content
  | .requestLogin name password => .requestLogin (name.map cString) (password.map cString)
  | .requestRegist name password => .requestRegist (name.map cString) (password.map cString)
  | .requestRoomCreate id name password =>
    .requestRoomCreate id (name.map cString) (password.map cString)
  | .requestRoomEntrance id name password =>
    .requestRoomEntrance id (name.map cString) (password.map cString)
  | .requestSendMessage id content => .requestSendMessage id (content.map cString)
  | .notifyMessage id content => .notifyMessage id (content.map cString)
  | .notifyRoomlist name => .notifyRoomlist (name.map cString)
  | c => c

theorem operands_valid (c : Content) : FieldsValid c.strings.length c.operands := by
  have hid (id : BitVec 32) : id.toNat < 4294967296 := id.isLt
  have hflag (b : Bool) : b.toNat < 256 := by cases b <;> decide
  cases c <;> refine ⟨?_, ?_, ?_, ?_, ?_, ?_⟩ <;>
    simp [operands, strings, Operand.Valid, maxField, hid, hflag]

/-- The accessors of a table find what its fields were given. -/
structure ReadsAs (p : Packet) (t : Ptr) (c : Content) : Prop where
  int32 : ∀ field e, (field, .scalar 4 e 0) ∈ c.operands →
    p.getInt32 t field = some (BitVec.ofNat 32 e)
  uint8 : ∀ field e, (field, .scalar 1 e 0) ∈ c.operands → p.getUint8 t field = some e
  string : ∀ field i str, (field, .object i) ∈ c.operands → c.strings[i]? = some str →
    p.getString t field = some (str.map cString)

namespace ReadsAs

variable {p : Packet} {t : Ptr} {c : Content} {field : ℕ}

theorem id (h : c.ReadsAs p t) {id : BitVec 32} (hmem : (field, .scalar 4 id.toNat 0) ∈ c.operands) :
    p.getInt32 t field = some id := by
  rw [h.int32 field _ hmem, BitVec.ofNat_toNat, BitVec.setWidth_eq]

theorem feedback (h : c.ReadsAs p t) {b : Bool}
    (hmem : (field, .scalar 1 b.toNat 0) ∈ c.operands) : p.getBool t field = some b := by
  unfold Packet.getBool
  rw [h.uint8 field _ hmem]
  cases b <;> rfl

theorem read {pos : ℤ} (h : c.ReadsAs p (some pos)) :
    p.readContent c.enumValue.value (some pos) = some c.cut := by
  cases c with
  | none => rfl
  | requestLogin name password =>
    have h1 := h.string 4 0 name (.tail _ (.head _)) rfl
    have h2 := h.string 6 1 password (.head _) rfl
    change RequestLogin.read p (some pos) = _
    unfold RequestLogin.read
    rw [h1, h2]
    rfl
  | responseLogin id feedback =>
    have h1 : p.getInt32 (some pos) 4 = some id := h.id (.head _)
    have h2 : p.getBool (some pos) 6 = some feedback := h.feedback (.tail _ (.head _))
    change ResponseLogin.read p (some pos) = _
    unfold ResponseLogin.read
    rw [h1, h2]
    rfl
  | requestRegist name password =>
    have h1 := h.string 4 0 name (.tail _ (.head _)) rfl
    have h2 := h.string 6 1 password (.head _) rfl
    change RequestRegist.read p (some pos) = _
    unfold RequestRegist.read
    rw [h1, h2]
    rfl
  | responseRegist id feedback =>
    have h1 : p.getInt32 (some pos) 4 = some id := h.id (.head _)
    have h2 : p.getBool (some pos) 6 = some feedback := h.feedback (.tail _ (.head _))
    change ResponseRegist.read p (some pos) = _
    unfold ResponseRegist.read
    rw [h1, h2]
    rfl
  | requestRoomCreate id roomName roomPassword =>
    have h1 : p.getInt32 (some pos) 4 = some id := h.id (.tail _ (.tail _ (.head _)))
    have h2 := h.string 6 0 roomName (.tail _ (.head _)) rfl
    have h3 := h.string 8 1 roomPassword (.head _) rfl
    change RequestRoomCreate.read p (some pos) = _
    unfold RequestRoomCreate.read
    rw [h1, h2, h3]
    rfl
  | responseRoomCreate roomId feedback =>
    have h1 : p.getInt32 (some pos) 4 = some roomId := h.id (.head _)
    have h2 : p.getBool (some pos) 6 = some feedback := h.feedback (.tail _ (.head _))
    change ResponseRoomCreate.read p (some pos) = _
    unfold ResponseRoomCreate.read
    rw [h1, h2]
    rfl
  | requestRoomEntrance id roomName roomPassword =>
    have h1 : p.getInt32 (some pos) 4 = some id := h.id (.tail _ (.tail _ (.head _)))
    have h2 := h.string 6 0 roomName (.tail _ (.head _)) rfl
    have h3 := h.string 8 1 roomPassword (.head _) rfl
    change RequestRoomEntrance.read p (some pos) = _
    unfold RequestRoomEntrance.read
    rw [h1, h2, h3]
    rfl
  | responseRoomEntrance roomId feedback =>
    have h1 : p.getInt32 (some pos) 4 = some roomId := h.id (.head _)
    have h2 : p.getBool (some pos) 6 = some feedback := h.feedback (.tail _ (.head _))
    change ResponseRoomEntrance.read p (some pos) = _
    unfold ResponseRoomEntrance.read
    rw [h1, h2]
    rfl
  | requestRoomLeave id roomId =>
    have h1 : p.getInt32 (some pos) 4 = some id := h.id (.tail _ (.head _))
    have h2 : p.getInt32 (some pos) 6 = some roomId := h.id (.head _)
    change RequestRoomLeave.read p (some pos) = _
    unfold RequestRoomLeave.read
    rw [h1, h2]
    rfl
  | responseRoomLeave roomId feedback =>
    have h1 : p.getInt32 (some pos) 4 = some roomId := h.id (.head _)
    have h2 : p.getBool (some pos) 6 = some feedback := h.feedback (.tail _ (.head _))
    change ResponseRoomLeave.read p (some pos) = _
    unfold ResponseRoomLeave.read
    rw [h1, h2]
    rfl
  | requestSendMessage id content =>
    have h1 : p.getInt32 (some pos) 4 = some id := h.id (.tail _ (.head _))
    have h2 := h.string 6 0 content (.head _) rfl
    change RequestSendMessage.read p (some pos) = _
    unfold RequestSendMessage.read
    rw [h1, h2]
    rfl
  | responseSendMessage feedback =>
    have h1 : p.getBool (some pos) 4 = some feedback := h.feedback (.head _)
    change ResponseSendMessage.read p (some pos) = _
    unfold ResponseSendMessage.read
    rw [h1]
    rfl
  | notifyMessage id content =>
    have h1 : p.getInt32 (some pos) 4 = some id := h.id (.tail _ (.head _))
    have h2 := h.string 6 0 content (.head _) rfl
    change NotifyMessage.read p (some pos) = _
    unfold NotifyMessage.read
    rw [h1, h2]
    rfl
  | notifyRoomlist name =>
    have h1 := h.string 4 0 name (.head _) rfl
    change NotifyRoomlist.read p (some pos) = _
    unfold NotifyRoomlist.read
    rw [h1]
    rfl
  | requestLogout id =>
    have h1 : p.getInt32 (some pos) 4 = some id := h.id (.head _)
    change RequestLogout.read p (some pos) = _
    unfold RequestLogout.read
    rw [h1]
    rfl
  | responseLogout feedback =>
    have h1 : p.getBool (some pos) 4 = some feedback := h.feedback (.head _)
    change ResponseLogout.read p (some pos) = _
    unfold ResponseLogout.read
    rw [h1]
    rfl

end ReadsAs

/-- The `Create` function puts down what the verifier asks for. -/
def Gives (c : Content) : TableField → Prop
  | .scalar field width => ∃ e, (field, .scalar width e 0) ∈ c.operands
  | .string field => ∃ i str, (field, .object i) ∈ c.operands ∧ c.strings[i]? = some str

theorem gives_fields {c : Content} {fields : List TableField}
    (h : contentFields c.enumValue.value = some fields) : ∀ f ∈ fields, c.Gives f := by
  cases c
  case none => cases h
  all_goals
    obtain rfl := Option.some.inj h
    simp [Gives, operands, strings, RequestLogin.fields, ResponseLogin.fields,
      RequestRegist.fields, ResponseRegist.fields, RequestRoomCreate.fields,
      ResponseRoomCreate.fields, RequestRoomEntrance.fields, ResponseRoomEntrance.fields,
      RequestRoomLeave.fields, ResponseRoomLeave.fields, RequestSendMessage.fields,
      ResponseSendMessage.fields, NotifyMessage.fields, NotifyRoomlist.fields,
      RequestLogout.fields, ResponseLogout.fields]

/-- The table of a content stands at `o`, and its strings at the first of the offsets. -/
structure Placed (c : Content) (rest : List UInt8) (forceDefaults : Bool) (offs : List ℕ) (o : ℕ) :
    Prop where
  table : Object.At rest forceDefaults offs o (.table c.operands)
  strings : ∀ i str, c.strings[i]? = some str →
    Object.At rest forceDefaults offs (offs.getD i 0) (.string str)

variable {p : Packet} {bytes rest : List UInt8} {forceDefaults : Bool} {offs : List ℕ} {o : ℕ}
  {c : Content} {fields : List TableField}

theorem Placed.tableInside (h : c.Placed rest forceDefaults offs o) (hp : p.Carries bytes rest) :
    p.TableInside (p.dataSize - o) := by
  obtain ⟨use, vt, ht⟩ := h.table
  exact hp.tableInside ht

theorem Placed.tableWith (h : c.Placed rest forceDefaults offs o) (hp : p.Carries bytes rest)
    (hf : contentFields c.enumValue.value = some fields) : p.TableWith fields (p.dataSize - o) := by
  refine ⟨h.tableInside hp, fun f hmem => ?_⟩
  have hgives := gives_fields hf f hmem
  cases f with
  | scalar field width =>
    obtain ⟨e, he⟩ := hgives
    exact (hp.operand_scalar h.table c.operands_valid he).1
  | string field =>
    obtain ⟨i, str, he, hi⟩ := hgives
    exact (hp.operand_string h.table c.operands_valid he (h.strings i str hi)).1

theorem Placed.readsAs (h : c.Placed rest forceDefaults offs o) (hp : p.Carries bytes rest) :
    c.ReadsAs p (some ((p.dataSize - o : ℕ) : ℤ)) := by
  have hv := c.operands_valid
  have htable := h.tableInside hp
  refine ⟨fun field e he => ?_, fun field e he => ?_, fun field i str he hi => ?_⟩
  · obtain ⟨hin, hread⟩ := hp.operand_scalar h.table hv he
    rw [htable.getInt32 hp.buffer_ne (hv.even _ he) hin, ← hread, apply_ite (BitVec.ofNat 32)]
    rfl
  · obtain ⟨hin, hread⟩ := hp.operand_scalar h.table hv he
    rw [htable.getUint8 hp.buffer_ne (hv.even _ he) hin, ← hread]
  · exact (hp.operand_string h.table hv he (h.strings i str hi)).2

end Content

theorem MessageType.value_lt (t : MessageType) : t.value < 256 := by
  cases t <;> decide

theorem MessageContent.value_lt (t : MessageContent) : t.value < 256 := by
  cases t <;> decide

theorem rootOperands_valid (messageType : MessageType) (content : Content) {n : ℕ} (hn : 0 < n) :
    FieldsValid n (rootOperands messageType content n) := by
  have hlast : n - 1 < n := by omega
  have htype : messageType.value < 4294967296 := messageType.value_lt.trans (by decide)
  refine ⟨?_, ?_, ?_, ?_, ?_, ?_⟩ <;>
    simp [rootOperands, MessageWrapper.vtContent, vtMessageType, MessageWrapper.vtContentType,
      Operand.Valid, maxField, hlast, htype, MessageContent.value_lt]

theorem ObjectsValid.append {k : ℕ} {l m : List Object} (hl : ObjectsValid k l)
    (hm : ObjectsValid (k + l.length) m) : ObjectsValid k (l ++ m) := by
  induction l generalizing k with
  | nil => exact hm
  | cons o l ih =>
    refine ⟨hl.1, ih hl.2 ?_⟩
    rwa [Nat.add_right_comm]

theorem objectsValid_strings (k : ℕ) (strs : List CStr) :
    ObjectsValid k (strs.map .string) := by
  induction strs generalizing k with
  | nil => trivial
  | cons str strs ih => exact ⟨trivial, ih (k + 1)⟩

namespace Content

theorem objects_eq {c : Content} (h : c ≠ .none) :
    c.objects = c.strings.map .string ++ [.table c.operands] := by
  cases c <;> first | rfl | exact absurd rfl h

theorem objects_pos (c : Content) : 0 < c.objects.length := by
  by_cases h : c = .none
  · rw [h]
    exact Nat.one_pos
  · rw [objects_eq h, List.length_append]
    exact Nat.succ_pos _

theorem objects_valid (c : Content) : ObjectsValid 0 c.objects := by
  by_cases h : c = .none
  · rw [h]
    exact ⟨trivial, trivial⟩
  · rw [objects_eq h]
    refine (objectsValid_strings 0 _).append ⟨?_, trivial⟩
    rw [List.length_map, Nat.zero_add]
    exact c.operands_valid

/-- The bytes of the strings of a message. -/
def textLength (c : Content) : ℕ := (c.strings.map fun str => (str.getD []).length).sum

theorem cost_objects_le (c : Content) :
    (c.objects.map Object.cost).sum ≤ c.textLength + 56 := by
  cases c <;> simp [objects, strings, operands, textLength, Object.cost, maxField] <;> omega

end Content

theorem messageObjects_valid (messageType : MessageType) (content : Content) :
    ObjectsValid 0 (messageObjects messageType content) := by
  refine content.objects_valid.append ⟨?_, trivial⟩
  rw [Nat.zero_add]
  exact rootOperands_valid messageType content content.objects_pos

theorem cost_messageObjects_le (messageType : MessageType) (content : Content) :
    ((messageObjects messageType content).map Object.cost).sum ≤ content.textLength + 96 := by
  have hle := content.cost_objects_le
  have hroot : (Object.table (rootOperands messageType content content.objects.length)).cost = 40 := rfl
  unfold messageObjects
  rw [List.map_append, List.sum_append, List.map_singleton, List.sum_singleton, hroot]
  omega

section

variable {p : Packet} {bytes rest : List UInt8} {forceDefaults sizePrefix : Bool} {offs : List ℕ}
  {t : MessageType} {c : Content} {root : ℕ}

theorem getElem?_root (t : MessageType) (c : Content) :
    (messageObjects t c)[c.objects.length]? = some (.table (rootOperands t c c.objects.length)) := by
  unfold messageObjects
  rw [List.getElem?_append_right le_rfl, Nat.sub_self]
  rfl

theorem placed_content (hall : List.Forall₂ (fun o off => o.At rest forceDefaults offs off)
    (messageObjects t c) offs) (hc : c ≠ .none) :
    c.Placed rest forceDefaults offs (offs.getD (c.objects.length - 1) 0) := by
  have hlen : c.objects.length - 1 = (c.strings.map Object.string).length := by
    rw [Content.objects_eq hc, List.length_append]
    rfl
  have hobj (i : ℕ) (hi : i < c.objects.length) : (messageObjects t c)[i]? = c.objects[i]? :=
    List.getElem?_append_left hi
  have hpos := c.objects_pos
  refine ⟨at_getD hall ?_, fun i str hi => at_getD hall ?_⟩
  · rw [hobj _ (by omega), hlen, Content.objects_eq hc, List.getElem?_append_right le_rfl,
      Nat.sub_self]
    rfl
  · obtain ⟨hlt, -⟩ := List.getElem?_eq_some_iff.mp hi
    have hlt' : i < (c.strings.map Object.string).length := by rwa [List.length_map]
    rw [hobj i (by omega), Content.objects_eq hc, List.getElem?_append_left hlt', List.getElem?_map,
      hi]
    rfl

theorem content_offset_none (hall : List.Forall₂ (fun o off => o.At rest forceDefaults offs off)
    (messageObjects t .none) offs) : offs.getD 0 0 = 0 :=
  at_getD (o := .string none) hall rfl

theorem TableAt.four_le {o use : ℕ} {vt : List UInt8} {fields : List (ℕ × Stored)}
    (h : TableAt rest o use vt fields) : 4 ≤ o := by
  have hlen := h.link.length_le
  rwa [length_encode] at hlen

theorem TableAt.eight_le {o use : ℕ} {vt : List UInt8} {fields : List (ℕ × Stored)}
    (h : TableAt rest o use vt fields) (haligned : rest.length % 4 = 0) : 8 ≤ rest.length := by
  by_contra hshort
  have ho := h.four_le
  have hole := h.link.1
  have huse := h.stands.length_le
  have hule := h.stands.1
  obtain ⟨hvt, -, -⟩ := h.size
  obtain rfl : o = 4 := by omega
  obtain rfl : use = 4 := by omega
  -- both would be the same four bytes, zero as a link and not as a vtable
  have hsame : vt = encode 4 0 := h.stands.unique h.link (by rw [length_encode]; omega)
  have hhead := h.head
  rw [hsame] at hhead
  cases hhead

theorem Finished.length_bytes (hf : Finished forceDefaults (messageObjects t c) root sizePrefix
    bytes rest offs) : bytes.length = startOf sizePrefix + (4 + rest.length) := by
  rw [hf.bytes]
  unfold withSize withRoot startOf
  cases sizePrefix <;> simp only [List.length_append, length_encode] <;> rfl

theorem Finished.carries (hf : Finished forceDefaults (messageObjects t c) root sizePrefix bytes
    rest offs) (hlt : bytes.length < Verifier.maxSize) (clientID : ℤ) :
    Packet.Carries ⟨clientID, some bytes, bytes.length⟩ bytes rest := by
  have hlen := hf.length_bytes
  have haligned := hf.aligned
  have hstart : startOf sizePrefix % 4 = 0 := by cases sizePrefix <;> rfl
  refine ⟨rfl, rfl, ?_, by omega, by omega, hlt⟩
  rw [hf.bytes]
  exact (List.suffix_append _ _).trans (List.suffix_append _ _)

theorem Finished.scalar_start (hf : Finished forceDefaults (messageObjects t c) root sizePrefix
    bytes rest offs) (hp : p.Carries bytes rest) :
    p.scalar (startOf sizePrefix : ℕ) 4 = 4 + rest.length - offs.getD root 0 := by
  have hdrop : bytes.drop (startOf sizePrefix) = withRoot rest (offs.getD root 0) := by
    rw [hf.bytes]
    unfold withSize startOf
    cases sizePrefix
    · rfl
    · exact List.drop_left' (length_encode _ _)
  have hlt := hp.lt
  have hfront := hp.front
  unfold Verifier.maxSize at hlt
  unfold Packet.scalar
  rw [hp.buffer, Option.getD_some, Int.toNat_natCast, hdrop]
  unfold withRoot
  rw [List.take_left' (length_encode _ _)]
  exact decode_encode (by omega)

theorem Finished.scalar_size (hf : Finished forceDefaults (messageObjects t c) root true bytes
    rest offs) (hp : p.Carries bytes rest) : p.scalar 0 4 + 4 = p.dataSize := by
  have hlen := hf.length_bytes
  have hlt := hp.lt
  have hbody : (withRoot rest (offs.getD root 0)).length = 4 + rest.length := by
    unfold withRoot
    rw [List.length_append, length_encode]
  have hsum : bytes.length = 4 + (4 + rest.length) := hlen
  have htake : bytes.take 4 = encode 4 (withRoot rest (offs.getD root 0)).length := by
    rw [hf.bytes]
    exact List.take_left' (length_encode _ _)
  have hread : p.scalar 0 4 = decode (bytes.take 4) := by
    unfold Packet.scalar
    rw [hp.buffer]
    rfl
  unfold Verifier.maxSize at hlt
  rw [hread, htake, decode_encode (by omega), hbody, hp.size, hsum, Nat.add_comm]

theorem Finished.offsetInside (hf : Finished forceDefaults (messageObjects t c) root sizePrefix
    bytes rest offs) (hp : p.Carries bytes rest) {fields : List (ℕ × Operand)}
    (hroot : Object.At rest forceDefaults offs (offs.getD root 0) (.table fields)) :
    p.OffsetInside (startOf sizePrefix) ∧
      p.rootAt (startOf sizePrefix) = p.dataSize - offs.getD root 0 ∧ minBufferSize ≤ p.dataSize := by
  obtain ⟨use, vt, ht⟩ := hroot
  have hread := hf.scalar_start hp
  have hlen := hf.length_bytes
  have hsize := hp.size
  have hlt := hp.lt
  have h4 := ht.four_le
  have hle := ht.link.1
  have h8 := ht.eight_le hf.aligned
  have hstart : startOf sizePrefix % 4 = 0 := by cases sizePrefix <;> rfl
  unfold Verifier.maxSize at hlt
  unfold minBufferSize
  refine ⟨⟨hstart, ⟨by omega, by omega⟩, by omega, by omega, ⟨by omega, by omega⟩⟩, ?_, by omega⟩
  unfold Packet.rootAt
  omega

theorem Finished.wrapperInside (hf : Finished forceDefaults (messageObjects t c) c.objects.length
    sizePrefix bytes rest offs) (hp : p.Carries bytes rest) :
    p.WrapperInside (p.dataSize - offs.getD c.objects.length 0) ∧
      p.getInt32 (some ((p.dataSize - offs.getD c.objects.length 0 : ℕ) : ℤ)) vtMessageType =
        some (BitVec.ofNat 32 t.value) ∧
      p.contentTypeAt (p.dataSize - offs.getD c.objects.length 0) = c.enumValue.value := by
  have hv := rootOperands_valid t c c.objects_pos
  have hroot := at_getD hf.objects (getElem?_root t c)
  obtain ⟨use, vt, ht⟩ := id hroot
  have htable := hp.tableInside ht
  obtain ⟨htype, hread⟩ := hp.operand_scalar hroot hv (.tail _ (.head _))
  obtain ⟨hcontent, hvalue⟩ := hp.operand_scalar hroot hv (.tail _ (.tail _ (.head _)))
  have hmem : (MessageWrapper.vtContent, .object (c.objects.length - 1)) ∈
    rootOperands t c c.objects.length := .head _
  have hnone (h0 : offs.getD (c.objects.length - 1) 0 = 0) := hp.operand_null hroot hv hmem h0
  have hsome (h0 : 0 < offs.getD (c.objects.length - 1) 0) := hp.operand_offset hroot hv hmem h0
  refine ⟨⟨htable, htype, hcontent, fun hne => ?_, fun fields hfields hne => ?_⟩, ?_, hvalue⟩
  · rcases Nat.eq_zero_or_pos (offs.getD (c.objects.length - 1) 0) with h0 | h0
    · exact absurd (hnone h0) hne
    · exact (hsome h0).2.1
  · rcases Nat.eq_zero_or_pos (offs.getD (c.objects.length - 1) 0) with h0 | h0
    · exact absurd (hnone h0) hne
    · have hc : c ≠ .none := by
        rintro rfl
        exact h0.ne' (content_offset_none hf.objects)
      have hkind : p.contentTypeAt _ = c.enumValue.value := hvalue
      rw [hkind] at hfields
      rw [(hsome h0).2.2]
      exact (placed_content hf.objects hc).tableWith hp hfields
  · rw [htable.getInt32 hp.buffer_ne rfl htype, ← hread, apply_ite (BitVec.ofNat 32)]
    rfl

/-- The message that is read back is the one that was built. -/
theorem Finished.wellFormed (hf : Finished forceDefaults (messageObjects t c) c.objects.length
    sizePrefix bytes rest offs) (hp : p.Carries bytes rest) :
    p.WellFormed (startOf sizePrefix) ∧
      (p.getMessageWrapper (startOf sizePrefix)).bind (MessageWrapper.read p) =
        some ⟨BitVec.ofNat 32 t.value, c.enumValue.value, c.cut⟩ ∧
      p.getInt32 (some (p.rootAt (startOf sizePrefix) : ℤ)) vtMessageType =
        some (BitVec.ofNat 32 t.value) := by
  have hv := rootOperands_valid t c c.objects_pos
  have hroot := at_getD hf.objects (getElem?_root t c)
  obtain ⟨hinside, htype, hkind⟩ := hf.wrapperInside hp
  obtain ⟨hoffset, hat, hmin⟩ := hf.offsetInside hp hroot
  rw [← hat] at hinside htype hkind
  have hwf : p.WellFormed (startOf sizePrefix) := ⟨hmin, hoffset, hinside⟩
  have hcontent : p.readContent c.enumValue.value
      (if p.fieldOffset (p.rootAt (startOf sizePrefix)) MessageWrapper.vtContent = 0 then none
        else some (p.target (p.rootAt (startOf sizePrefix)) MessageWrapper.vtContent : ℤ)) =
      some c.cut := by
    by_cases hc : c = .none
    · rw [hc]
      exact Packet.readContent_of_unknown rfl
    · have hplaced := placed_content hf.objects hc
      obtain ⟨use, vt, ht⟩ := hplaced.table
      have h4 := ht.four_le
      obtain ⟨hne, -, htarget⟩ := hp.operand_offset hroot hv (.head _)
        (show 0 < offs.getD (c.objects.length - 1) 0 by omega)
      rw [← hat] at hne htarget
      rw [if_neg hne, htarget]
      exact (hplaced.readsAs hp).read
  refine ⟨hwf, ?_, htype⟩
  rw [hwf.getMessageWrapper hp.buffer_ne, Option.bind_some]
  unfold MessageWrapper.read
  rw [htype, hinside.contentType_eq hp.buffer_ne, hinside.content_eq hp.buffer_ne, hkind]
  simp only [Option.bind_eq_bind, Option.bind_some, hcontent]
  rfl

end

/-- A message from a builder that was used for other buffers before. -/
def buildMessageAfter (forceDefaults dedupVtables : Bool) (earlier : List (Job × Bool))
    (messageType : MessageType) (content : Content) (sizePrefix : Bool) : Build (List UInt8) := do
  setForceDefaults forceDefaults
  setDedupVtables dedupVtables
  earlier.forM Job.buildAndDrop
  buildMessage messageType content sizePrefix

def Packet.ofBytes (clientID : ℤ) (bytes : List UInt8) : Packet :=
  ⟨clientID, some bytes, bytes.length⟩

def messageJob (messageType : MessageType) (content : Content) (sizePrefix : Bool) : Job :=
  ⟨messageObjects messageType content, content.objects.length, sizePrefix⟩

theorem messageJob_valid {c : Content} (hc : c.textLength + 116 < maxBufferSize) (t : MessageType)
    (sizePrefix : Bool) : (messageJob t c sizePrefix).Valid where
  objects := messageObjects_valid t c
  root := ⟨_, getElem?_root t c⟩
  size := by
    have hcost := cost_messageObjects_le t c
    change ((messageObjects t c).map Object.cost).sum + 20 < maxBufferSize
    omega

theorem buildMessageAfter_eq (forceDefaults dedupVtables : Bool) (earlier : List (Job × Bool))
    (t : MessageType) (c : Content) (sizePrefix : Bool) :
    buildMessageAfter forceDefaults dedupVtables earlier t c sizePrefix =
      (messageJob t c sizePrefix).buildAfter forceDefaults dedupVtables earlier := by
  unfold buildMessageAfter Job.buildAfter Job.build
  rw [buildMessage_eq]
  rfl

theorem returns_buildMessageAfter {forceDefaults dedupVtables : Bool}
    {earlier : List (Job × Bool)} {c : Content} (allocator : Allocator) (initialSize : ℕ)
    (hearlier : ∀ e ∈ earlier, e.1.Valid) (t : MessageType)
    (hc : c.textLength + 116 < maxBufferSize) (sizePrefix : Bool) :
    Returns (buildMessageAfter forceDefaults dedupVtables earlier t c sizePrefix)
      (construct allocator initialSize) fun bytes _ => bytes.length < Verifier.maxSize ∧
        ∃ rest offs, Finished forceDefaults (messageObjects t c) c.objects.length sizePrefix bytes
          rest offs := by
  have hjob := messageJob_valid hc t sizePrefix
  have hle : (serialize forceDefaults dedupVtables (messageObjects t c) c.objects.length
      sizePrefix).length ≤ ((messageObjects t c).map Object.cost).sum + 20 :=
    length_serialize hjob.objects _ _
  rw [buildMessageAfter_eq]
  refine (returns_buildAfter allocator initialSize hearlier hjob).mono fun bytes b hb => ?_
  rw [hb]
  exact ⟨hle.trans_lt hjob.size, serialize_spec hjob.objects⟩

/-- The verifier accepts every message that was built, and reading it gives it back, with its
strings up to their first zero. -/
theorem message_round_trip {forceDefaults dedupVtables : Bool} {earlier : List (Job × Bool)}
    {c : Content} (allocator : Allocator) (initialSize : ℕ) (hearlier : ∀ e ∈ earlier, e.1.Valid)
    (t : MessageType) (hc : c.textLength + 116 < maxBufferSize) (sizePrefix : Bool) (clientID : ℤ) :
    Returns (buildMessageAfter forceDefaults dedupVtables earlier t c sizePrefix)
      (construct allocator initialSize) fun bytes _ =>
        (∃ v, (Packet.ofBytes clientID bytes).verifyMessage sizePrefix .new = some (true, v)) ∧
        ((Packet.ofBytes clientID bytes).getMessageWrapper (startOf sizePrefix)).bind
            (MessageWrapper.read (.ofBytes clientID bytes)) =
          some ⟨BitVec.ofNat 32 t.value, c.enumValue.value, c.cut⟩ := by
  refine (returns_buildMessageAfter allocator initialSize hearlier t hc sizePrefix).mono
    fun bytes _ hb => ?_
  obtain ⟨hlt, rest, offs, hf⟩ := hb
  have hp := hf.carries hlt clientID
  obtain ⟨hwf, hread, -⟩ := hf.wellFormed hp
  refine ⟨?_, hread⟩
  cases sizePrefix with
  | false =>
    obtain ⟨ok, v, hrun, hiff⟩ := Packet.verifyMessageWrapperBuffer_iff (.ofBytes clientID bytes)
      (fun h => nomatch h) hlt
    obtain rfl : ok = true := hiff.mpr hwf
    exact ⟨v, hrun⟩
  | true =>
    obtain ⟨ok, v, hrun, hiff⟩ := Packet.verifySizePrefixedMessageWrapperBuffer_iff
      (.ofBytes clientID bytes) (fun h => nomatch h) hlt
    obtain rfl : ok = true := hiff.mpr ⟨(hf.scalar_size hp).le, hwf⟩
    exact ⟨v, hrun⟩

/-- A line of chat, built in memory that held other bytes. -/
theorem message_round_trip_chat : Returns (buildMessageAfter false true [(greeting, true)]
    .requestSendMessage (.requestSendMessage 7 (some [104, 105])) true)
    (construct ⟨fun n => List.replicate n 0xCD, fun _ => List.length_replicate⟩ 64) fun bytes _ =>
      (∃ v, (Packet.ofBytes 3 bytes).verifyMessage true .new = some (true, v)) ∧
      ((Packet.ofBytes 3 bytes).getMessageWrapper (startOf true)).bind
          (MessageWrapper.read (.ofBytes 3 bytes)) =
        some ⟨BitVec.ofNat 32 MessageType.requestSendMessage.value,
          MessageContent.requestSendMessage.value, .requestSendMessage 7 (some [104, 105])⟩ :=
  message_round_trip _ _ (fun _ h => List.mem_singleton.mp h ▸ greeting_valid) _ (by decide) _ _

/-- `MessageProcess` finds the type of every message that was built. -/
theorem message_processed {forceDefaults dedupVtables : Bool} {earlier : List (Job × Bool)}
    {c : Content} (allocator : Allocator) (initialSize : ℕ) (hearlier : ∀ e ∈ earlier, e.1.Valid)
    (t : MessageType) (hc : c.textLength + 116 < maxBufferSize) (clientID : ℤ) :
    Returns (buildMessageAfter forceDefaults dedupVtables earlier t c false)
      (construct allocator initialSize) fun bytes _ =>
        (Packet.ofBytes clientID bytes).messageProcess = some (t.value : ℤ) := by
  refine (returns_buildMessageAfter allocator initialSize hearlier t hc false).mono
    fun bytes _ hb => ?_
  obtain ⟨hlt, rest, offs, hf⟩ := hb
  have hp := hf.carries hlt clientID
  obtain ⟨hwf, -, htype⟩ := hf.wellFormed hp
  have hvalue : (BitVec.ofNat 32 t.value).toInt = t.value := by cases t <;> rfl
  rw [← hvalue]
  exact hwf.messageProcess hp.buffer_ne htype

theorem message_processed_chat : Returns (buildMessageAfter false true [] .requestLogout
    (.requestLogout 7) false)
    (construct ⟨fun n => List.replicate n 0xCD, fun _ => List.length_replicate⟩ 64) fun bytes _ =>
      (Packet.ofBytes 3 bytes).messageProcess = some (MessageType.requestLogout.value : ℤ) :=
  message_processed _ _ (List.forall_mem_nil _) _ (by decide) _

end EchoIocp
