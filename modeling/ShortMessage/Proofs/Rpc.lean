import ShortMessage.Lib.BinaryProtocol
import ShortMessage.Rpc

/-!
# Reading and answering messages

A generated reader folds over the fields it is sent: the last one of the identifier and the type it
expects counts, whatever else there is. So the server answers every well-formed call, whether it
knows the method or not, and takes exactly its bytes; a client takes more than its reply when that
is of another type or name.
-/

namespace ShortMessage

open CMemory Thrift Reader

variable {p : TProtocol} {fields : List (TName × TValue)} {depth : ℕ}

/-! ## `AccessMessage` -/

namespace AccessMessage

variable {m : AccessMessage}

/-- What a field does to the message that is read. -/
def assign (m : AccessMessage) (f : TName × TValue) : AccessMessage :=
  match f.1.id.toNat with
  | 1 => f.2.onI32 (fun v => { m with uid := v }) m
  | 2 => f.2.onI32 (fun v => { m with sateId := v.toInt }) m
  | 3 => f.2.onI32 (fun v => { m with beamId := v.toInt }) m
  | 4 => f.2.onI32 (fun v => { m with level := v.toInt }) m
  | 5 => f.2.onString (fun s => { m with content := s }) m
  | _ => m

theorem reads_readField (hp : p.Lawful) (f : TName × TValue) (hf : p.Wf f.2)
    (hd : depth + f.2.levels ≤ p.recursionLimit) (m : AccessMessage) :
    Reads (readField p depth m f.2.type f.1.id) (p.write f.2) (m.assign f) := by
  unfold readField assign
  generalize f.1.id.toNat = id
  rcases id with _ | _ | _ | _ | _ | _ | id
  · exact (hp.skip_write f.2 depth hf hd).bind_pure
  · exact hp.fieldCase_i32 hf hd fun v => { m with uid := v }
  · exact hp.fieldCase_i32 hf hd fun v => { m with sateId := v.toInt }
  · exact hp.fieldCase_i32 hf hd fun v => { m with beamId := v.toInt }
  · exact hp.fieldCase_i32 hf hd fun v => { m with level := v.toInt }
  · exact hp.fieldCase_string hf hd fun s => { m with content := s }
  · exact (hp.skip_write f.2 depth hf hd).bind_pure

theorem reads_read (hp : p.Lawful) (name : List Byte) (hf : p.WfFields fields)
    (hd : depth + fieldLevels fields < p.recursionLimit) (m : AccessMessage) :
    Reads (read p depth m) (p.write (.struct name fields)) (fields.foldl assign m) := by
  refine hp.readStruct assign (by omega) name m fun f hm => ?_
  have hv := TProtocol.wfFields_iff.1 hf f hm
  have hlevels := levels_le_fieldLevels hm
  exact ⟨hv.type_ne_stop, reads_readField hp f hv (by omega)⟩

/-- The message read from a structure: each member is the last field of its identifier and type, and
keeps its value where there is none. -/
def ofFields (m : AccessMessage) (fields : List (TName × TValue)) : AccessMessage where
  uid := (lastI32 fields 1).getD m.uid
  sateId := ((lastI32 fields 2).map BitVec.toInt).getD m.sateId
  beamId := ((lastI32 fields 3).map BitVec.toInt).getD m.beamId
  level := ((lastI32 fields 4).map BitVec.toInt).getD m.level
  content := (lastString fields 5).getD m.content

theorem assign_eq (m : AccessMessage) (f : TName × TValue) : m.assign f =
    ⟨if f.1.id = 1 then f.2.onI32 id m.uid else m.uid,
      if f.1.id = 2 then f.2.onI32 BitVec.toInt m.sateId else m.sateId,
      if f.1.id = 3 then f.2.onI32 BitVec.toInt m.beamId else m.beamId,
      if f.1.id = 4 then f.2.onI32 BitVec.toInt m.level else m.level,
      if f.1.id = 5 then f.2.onString id m.content else m.content⟩ := by
  have hid : ∀ k : BitVec 16, f.1.id = k ↔ f.1.id.toNat = k.toNat := fun k => BitVec.toNat_inj.symm
  unfold assign
  simp only [hid]
  generalize f.1.id.toNat = id
  rcases id with _ | _ | _ | _ | _ | _ | id <;> rcases f.2 with _ | _ | _ | _ <;> rfl

/-- A member that the `i32`s of one identifier are written to. -/
theorem foldl_assign_i32 {β : Type} (member : AccessMessage → β) (g : BitVec 32 → β)
    (id : BitVec 16) (h : ∀ m f, member (assign m f) =
      if f.1.id = id then f.2.onI32 g (member m) else member m)
    (fields : List (TName × TValue)) (m : AccessMessage) :
    member (fields.foldl assign m) = ((lastI32 fields id).map g).getD (member m) := by
  refine LastWrite.foldl_read assign member i32s (fun m f => ?_) fields m
  rw [h, last_i32s]
  split_ifs
  · rcases f.2 with _ | _ | _ | _ <;> rfl
  · rfl

theorem foldl_assign_content (fields : List (TName × TValue)) (m : AccessMessage) :
    (fields.foldl assign m).content = (lastString fields 5).getD m.content := by
  have h := LastWrite.foldl_read (k := 5) (f := id) assign content strings (fun m f => ?_) fields m
  · rwa [Option.map_id_fun, id] at h
  · have hm : (assign m f).content =
        if f.1.id = 5 then f.2.onString id m.content else m.content := by
      rw [assign_eq]
    rw [hm, last_strings]
    split_ifs
    · rcases f.2 with _ | _ | _ | _ <;> rfl
    · rfl

theorem foldl_assign (fields : List (TName × TValue)) (m : AccessMessage) :
    fields.foldl assign m = m.ofFields fields := by
  have huid := foldl_assign_i32 uid id 1 (fun m f => by rw [assign_eq]) fields m
  have hsate := foldl_assign_i32 sateId BitVec.toInt 2 (fun m f => by rw [assign_eq]) fields m
  have hbeam := foldl_assign_i32 beamId BitVec.toInt 3 (fun m f => by rw [assign_eq]) fields m
  have hlevel := foldl_assign_i32 level BitVec.toInt 4 (fun m f => by rw [assign_eq]) fields m
  have hcontent := foldl_assign_content fields m
  rw [Option.map_id_fun, id] at huid
  generalize fields.foldl assign m = m' at *
  obtain ⟨uid, sateId, beamId, level, content⟩ := m'
  rw [ofFields, AccessMessage.mk.injEq]
  exact ⟨huid, hsate, hbeam, hlevel, hcontent⟩

/-- Whatever fields a structure has, in whatever order, the reader takes it to its end, and each
member becomes the last field of its identifier and type. -/
theorem reads_ofFields (hp : p.Lawful) (name : List Byte) (hf : p.WfFields fields)
    (hd : depth + fieldLevels fields < p.recursionLimit) (m : AccessMessage) :
    Reads (read p depth m) (p.write (.struct name fields)) (m.ofFields fields) := by
  rw [← foldl_assign]
  exact reads_read hp name hf hd m

/-- An identifier nobody knows, one with the wrong type, and one that comes twice. -/
def mixedFields : List (TName × TValue) :=
  [(⟨[], 1⟩, .i32 7), (⟨[], 9⟩, .struct [] [(⟨[], 1⟩, .i32 3)]), (⟨[], 2⟩, .string [5#8]),
    (⟨[], 1⟩, .i32 8)]

theorem reads_ofFields_mixed : Reads (read (binary 64) 0 zero)
    ((binary 64).write (.struct [] mixedFields)) ⟨8, 0, 0, 0, []⟩ := by
  have hwf : (binary 64).WfFields mixedFields := by simp [mixedFields, TProtocol.WfFields, TProtocol.Wf]
  exact reads_ofFields (binary_lawful 64) [] hwf (by decide) zero

/-- The fields that `write` writes. -/
def toFields (m : AccessMessage) : List (TName × TValue) :=
  [(⟨ascii "uid", 1⟩, .i32 m.uid), (⟨ascii "sate_id", 2⟩, .i32 (.ofInt 32 m.sateId)),
    (⟨ascii "beam_id", 3⟩, .i32 (.ofInt 32 m.beamId)),
    (⟨ascii "level", 4⟩, .i32 (.ofInt 32 m.level)), (⟨ascii "content", 5⟩, .string m.content)]

theorem write_eq (p : TProtocol) (m : AccessMessage) :
    m.write p = p.write (.struct (ascii "AccessMessage") m.toFields) := by
  simp only [write, toFields, TWire.write, TWire.writeFields, TValue.type, List.append_assoc,
    List.nil_append]

/-- A value of an `int32_t`. -/
def IsInt32 (z : ℤ) : Prop := -2 ^ 31 ≤ z ∧ z < 2 ^ 31

/-- The members are `int32_t`s, and a string whose length an `int32_t` holds. -/
structure InRange (m : AccessMessage) : Prop where
  sateId : IsInt32 m.sateId
  beamId : IsInt32 m.beamId
  level : IsInt32 m.level
  content : m.content.length < 2 ^ 31

theorem toInt_ofInt {z : ℤ} (hz : IsInt32 z) : (BitVec.ofInt 32 z).toInt = z :=
  BitVec.toInt_ofInt_eq_self (by decide) hz.1 hz.2

/-- What is written is read back, whatever the message held before. -/
theorem ofFields_toFields (hm : m.InRange) (m₀ : AccessMessage) : m₀.ofFields m.toFields = m := by
  rw [← foldl_assign]
  show AccessMessage.mk m.uid (BitVec.ofInt 32 m.sateId).toInt (BitVec.ofInt 32 m.beamId).toInt
    (BitVec.ofInt 32 m.level).toInt m.content = m
  rw [toInt_ofInt hm.sateId, toInt_ofInt hm.beamId, toInt_ofInt hm.level]

theorem wfFields_toFields (hm : m.InRange) : p.WfFields m.toFields :=
  ⟨trivial, trivial, trivial, trivial, hm.content, trivial⟩

theorem fieldLevels_toFields (m : AccessMessage) : fieldLevels m.toFields = 1 := rfl

end AccessMessage

/-! ## Arguments and results -/

theorem reads_readVoid (hp : p.Lawful) (name : List Byte) (hf : p.WfFields fields)
    (hd : depth + fieldLevels fields < p.recursionLimit) :
    Reads (readVoid p depth) (p.write (.struct name fields)) () := by
  refine hp.readStruct (fun _ _ => ()) (by omega) name () fun f hm => ?_
  have hv := TProtocol.wfFields_iff.1 hf f hm
  have hlevels := levels_le_fieldLevels hm
  exact ⟨hv.type_ne_stop, fun _ => hp.skip_write f.2 (depth + 1) hv (by omega)⟩

theorem writeVoid_eq (p : TProtocol) (name : String) :
    writeVoid p name = p.write (.struct (ascii name) []) := by
  simp only [writeVoid, TWire.write, TWire.writeFields, List.append_assoc, List.nil_append]

namespace AccessToLogic

/-- The request among the fields of the arguments. -/
def request (fields : List (TName × TValue)) : List Byte := (lastString fields 1).getD []

def assign (request : List Byte) (f : TName × TValue) : List Byte :=
  if f.1.id = 1 then f.2.onString id request else request

theorem foldl_assign (fields : List (TName × TValue)) :
    fields.foldl assign [] = request fields := by
  have h := LastWrite.foldl_read (k := 1) (f := id) assign id strings (fun r f => ?_) fields []
  · rwa [Option.map_id_fun, id, id] at h
  · rw [last_strings]
    show assign r f = _
    unfold assign
    split_ifs
    · rcases f.2 with _ | _ | _ | _ <;> rfl
    · rfl

theorem reads_readArgs (hp : p.Lawful) (name : List Byte) (hf : p.WfFields fields)
    (hd : depth + fieldLevels fields < p.recursionLimit) :
    Reads (readArgs p depth) (p.write (.struct name fields)) (request fields) := by
  rw [← foldl_assign]
  refine hp.readStruct assign (by omega) name [] fun f hm => ?_
  have hv := TProtocol.wfFields_iff.1 hf f hm
  have hlevels := levels_le_fieldLevels hm
  have hskip : depth + 1 + f.2.levels ≤ p.recursionLimit := by omega
  refine ⟨hv.type_ne_stop, fun r => ?_⟩
  have hid : f.1.id = 1 ↔ f.1.id.toNat = 1 := BitVec.toNat_inj.symm
  unfold readArgsField assign
  simp only [hid]
  generalize f.1.id.toNat = id
  rcases id with _ | _ | id
  · exact (hp.skip_write f.2 (depth + 1) hv hskip).bind_pure
  · have h := hp.fieldCase_string (a := r) hv hskip id
    rwa [show (do return id (← p.readString)) = p.readString from bind_pure _] at h
  · exact (hp.skip_write f.2 (depth + 1) hv hskip).bind_pure

theorem writePargs_eq (p : TProtocol) (request : List Byte) : writePargs p request =
    p.write (.struct (ascii "LogicInterface_AccessToLogic_pargs")
      [(⟨ascii "request", 1⟩, .string request)]) := by
  simp only [writePargs, TWire.write, TWire.writeFields, TValue.type, List.append_assoc,
    List.nil_append]

end AccessToLogic

namespace LogicToAccess

/-- The fields of a structure that is read into the response. -/
def inner (f : TName × TValue) : List (TName × TValue) :=
  if f.1.id = 1 then f.2.onStruct id [] else []

/-- The response among the fields of the arguments: the structures among them count as one. -/
def response (fields : List (TName × TValue)) : AccessMessage :=
  AccessMessage.zero.ofFields (fields.flatMap inner)

def assign (response : AccessMessage) (f : TName × TValue) : AccessMessage :=
  (inner f).foldl AccessMessage.assign response

theorem foldl_onStruct (v : TValue) (r : AccessMessage) :
    (v.onStruct id []).foldl AccessMessage.assign r =
      v.onStruct (fun fs => fs.foldl AccessMessage.assign r) r := by
  rcases v with _ | _ | _ | _ <;> rfl

theorem foldl_assign (fields : List (TName × TValue)) :
    fields.foldl assign .zero = response fields := by
  rw [response, ← AccessMessage.foldl_assign, List.foldl_flatMap]
  rfl

theorem reads_readArgs (hp : p.Lawful) (name : List Byte) (hf : p.WfFields fields)
    (hd : depth + fieldLevels fields < p.recursionLimit) :
    Reads (readArgs p depth) (p.write (.struct name fields)) (response fields) := by
  rw [← foldl_assign]
  refine hp.readStruct assign (by omega) name .zero fun f hm => ?_
  have hv := TProtocol.wfFields_iff.1 hf f hm
  have hlevels := levels_le_fieldLevels hm
  have hskip : depth + 1 + f.2.levels ≤ p.recursionLimit := by omega
  refine ⟨hv.type_ne_stop, fun r => ?_⟩
  have hid : f.1.id = 1 ↔ f.1.id.toNat = 1 := BitVec.toNat_inj.symm
  unfold readArgsField assign inner
  simp only [hid]
  generalize f.1.id.toNat = id
  rcases id with _ | _ | id
  · exact (hp.skip_write f.2 (depth + 1) hv hskip).bind_pure
  · rw [if_pos rfl, foldl_onStruct]
    refine hp.fieldCase_struct hv hskip _ fun name fs hfs => ?_
    rw [hfs] at hv hlevels ⊢
    rw [TValue.levels] at hlevels
    exact AccessMessage.reads_read hp name hv (by omega) r
  · exact (hp.skip_write f.2 (depth + 1) hv hskip).bind_pure

theorem writePargs_eq (p : TProtocol) (response : AccessMessage) : writePargs p response =
    p.write (.struct (ascii "LogicInterface_LogicToAccess_pargs")
      [(⟨ascii "response", 1⟩, .struct (ascii "AccessMessage") response.toFields)]) := by
  simp only [writePargs, AccessMessage.write_eq, TWire.write, TWire.writeFields, TValue.type,
    List.append_assoc, List.nil_append]

end LogicToAccess

/-! ## The client -/

/-- The structures a message carries, each with its end. -/
def carried (p : TProtocol) (bodies : List (List Byte × List (TName × TValue))) : List Byte :=
  bodies.flatMap fun b => p.write (.struct b.1 b.2) ++ p.writeMessageEnd

/-- `r` takes `n` structures that can be skipped, each with the end of its message. -/
def Takes {α : Type} (p : TProtocol) (r : Reader Byte α) (n : ℕ) (a : α) : Prop :=
  ∀ bodies, bodies.length = n →
    (∀ b ∈ bodies, p.WfFields b.2 ∧ fieldLevels b.2 < p.recursionLimit) →
    Reads r (carried p bodies) a

theorem Takes.stray {α : Type} {r : Reader Byte α} {n : ℕ} {a : α} (hp : p.Lawful) (c : Prop)
    [Decidable c] (hr : Takes p r n a) :
    Takes p (if c then do p.skip 0 .struct; p.readMessageEnd; r else r)
      ((if c then 1 else 0) + n) a := by
  intro bodies hlen hwf
  split_ifs at hlen ⊢
  · obtain ⟨b, bodies, rfl⟩ := List.exists_cons_of_length_eq_add_one (hlen.trans (Nat.add_comm 1 n))
    obtain ⟨⟨hb, hd⟩, hwf⟩ := List.forall_mem_cons.1 hwf
    have hskip := hp.skip_write (.struct b.1 b.2) 0 hb (by rw [TValue.levels]; omega)
    have hrest := hr bodies (by rw [List.length_cons] at hlen; omega) hwf
    refine (hskip.bind (hp.messageEnd.bind hrest)).of_eq ?_
    simp only [carried, List.flatMap_cons, List.append_assoc]
  · exact hr bodies (hlen.trans (Nat.zero_add n)) hwf

theorem takes_result (hp : p.Lawful) :
    Takes p (do readVoid p 0; p.readMessageEnd; return (.ok () : Except TApplicationException Unit))
      1 (.ok ()) := by
  intro bodies hlen hwf
  obtain ⟨b, rfl⟩ := List.length_eq_one_iff.1 hlen
  obtain ⟨hb, hd⟩ := hwf b List.mem_cons_self
  have hresult := reads_readVoid hp b.1 hb ((Nat.zero_add _).trans_lt hd)
  refine (hresult.bind hp.messageEnd.bind_pure).of_eq ?_
  rw [carried, List.flatMap_singleton]

/-- How many structures `recv` takes when the message is not an exception. -/
def taken (name : String) (fname : List Byte) (t : TMessageType) : ℕ :=
  (if t ≠ .reply then 1 else 0) + ((if fname ≠ ascii name then 1 else 0) + 1)

/-- A message of the wrong type or name is not refused: for each of the two the client takes one
structure more, and returns. -/
theorem reads_recv_strays (hp : p.Lawful) (name : String) {fname : List Byte} {t : TMessageType}
    (seqid : BitVec 32) (bodies : List (List Byte × List (TName × TValue)))
    (ht : t ≠ .exception) (hname : fname.length < 2 ^ 31)
    (hlen : bodies.length = taken name fname t)
    (hwf : ∀ b ∈ bodies, p.WfFields b.2 ∧ fieldLevels b.2 < p.recursionLimit) :
    Reads (recv p name (readVoid p 0)) (p.writeMessageBegin fname t seqid ++ carried p bodies)
      (.ok ()) := by
  unfold recv
  refine (hp.message fname t seqid hname).bind ?_
  simp only [if_neg ht]
  exact ((takes_result hp).stray hp (fname ≠ ascii name)).stray hp (t ≠ .reply) bodies hlen hwf

/-- A reply to another method: its structure is dropped and the next message's taken for its own. -/
theorem reads_recv_strays_other : Reads (recv (binary 64) "AccessToLogic" (readVoid (binary 64) 0))
    ((binary 64).writeMessageBegin (ascii "LogicToAccess") .reply 0 ++
      carried (binary 64) [([], [(⟨[], 1⟩, .i32 7)]), ([], [])]) (.ok ()) :=
  reads_recv_strays (binary_lawful 64) "AccessToLogic" 0 _ TMessageType.noConfusion (by decide)
    (by decide)
    (List.forall_mem_cons.2 ⟨⟨⟨trivial, trivial⟩, by decide⟩,
      List.forall_mem_singleton.2 ⟨trivial, by decide⟩⟩)

theorem reads_recv_exception (hp : p.Lawful) (name : String) (readPresult : Reader Byte Unit)
    {fname : List Byte} {x : TApplicationException} (seqid : BitVec 32)
    (hname : fname.length < 2 ^ 31) (hx : x.message.length < 2 ^ 31)
    (hd : 0 < p.recursionLimit) :
    Reads (recv p name readPresult) (p.writeMessageBegin fname .exception seqid ++
      p.writeException x ++ p.writeMessageEnd) (.error x) := by
  unfold recv
  rw [List.append_assoc]
  refine (hp.message fname .exception seqid hname).bind ?_
  exact (hp.exception 0 hd x hx).bind hp.messageEnd.bind_pure

/-! ## The server -/

section Server

variable {σ : Type}

/-- The call that a message asks for, `none` when it names no method. -/
def asked (m : TMessage) : Option Call :=
  if m.name = ascii "AccessToLogic" then
    some (.accessToLogic (AccessToLogic.request m.fields))
  else if m.name = ascii "LogicToAccess" then
    some (.logicToAccess (LogicToAccess.response m.fields))
  else none

/-- What comes of a message: the call it asks for is made on the handler, and no other. -/
def answerTo (iface : Iface σ) (m : TMessage) : StateM σ (Except TApplicationException Unit) :=
  match asked m with
  | some c => do return (← iface.call c).mapError .unknown
  | none => return .error (invalidMethod m.name)

def writeResult (p : TProtocol) (m : TMessage) : List Byte :=
  if m.name = ascii "AccessToLogic" then AccessToLogic.writeResult p
  else LogicToAccess.writeResult p

/-- A reply goes out under the message's own name and number. -/
def writeAnswer (p : TProtocol) (m : TMessage) : Except TApplicationException Unit → List Byte
  | .error x =>
    p.writeMessageBegin m.name .exception m.seqid ++ p.writeException x ++ p.writeMessageEnd
  | .ok () => p.writeMessageBegin m.name .reply m.seqid ++ writeResult p m ++ p.writeMessageEnd

/-- A call as any client can write it, with any fields in its structure. -/
structure IsCall (p : TProtocol) (m : TMessage) : Prop where
  type : m.type = .call ∨ m.type = .oneway
  name : m.name.length < 2 ^ 31
  fields : p.WfFields m.fields
  levels : fieldLevels m.fields < p.recursionLimit

theorem reads_processCall {α : Type} {readArgs : Reader Byte α} {args : α} {bytes : List Byte}
    (hp : p.Lawful) (name : String) (method : α → σ → Except (List Byte) Unit × σ)
    (result : List Byte) (s : σ) (seqid : BitVec 32) (hargs : Reads readArgs bytes args) :
    Reads (processCall p name readArgs method result s seqid) (bytes ++ p.writeMessageEnd)
      ((method args s).2, reply p name seqid result (method args s).1) :=
  hargs.bind (hp.messageEnd.bind_nil_right (reads_pure _))

theorem run_answerTo (iface : Iface σ) {m : TMessage} {c : Call} (hc : asked m = some c) (s : σ) :
    (answerTo iface m).run s =
      (((iface.call c).run s).1.mapError .unknown, ((iface.call c).run s).2) := by
  rw [answerTo, hc]
  rfl

theorem writeAnswer_mapError {m : TMessage} {name : String} (hname : m.name = ascii name)
    (outcome : Except (List Byte) Unit) : writeAnswer p m (outcome.mapError .unknown) =
      reply p name m.seqid (writeResult p m) outcome := by
  rcases outcome with what | _
  · rw [reply, ← hname]
    rfl
  · rw [reply, ← hname]
    rfl

theorem accessToLogic_ne_logicToAccess : ascii "LogicToAccess" ≠ ascii "AccessToLogic" := by
  decide

/-- One message is answered, and exactly its bytes are taken. -/
theorem reads_dispatchCall (hp : p.Lawful) (iface : Iface σ) {m : TMessage} (hm : IsCall p m)
    (s : σ) : Reads (dispatchCall p iface s m.name m.seqid)
      (p.write (.struct m.structName m.fields) ++ p.writeMessageEnd)
      (((answerTo iface m).run s).2, writeAnswer p m ((answerTo iface m).run s).1) := by
  have hd : 0 + fieldLevels m.fields < p.recursionLimit := (Nat.zero_add _).trans_lt hm.levels
  rw [dispatchCall]
  split_ifs with haccess hlogic
  · have hasked : asked m = some (.accessToLogic (AccessToLogic.request m.fields)) :=
      if_pos haccess
    rw [run_answerTo iface hasked, writeAnswer_mapError haccess, writeResult, if_pos haccess]
    exact reads_processCall hp "AccessToLogic" iface.accessToLogic _ s m.seqid
      (AccessToLogic.reads_readArgs hp m.structName hm.fields hd)
  · have hasked : asked m = some (.logicToAccess (LogicToAccess.response m.fields)) := by
      rw [asked, if_neg haccess, if_pos hlogic]
    rw [run_answerTo iface hasked, writeAnswer_mapError hlogic, writeResult, if_neg haccess]
    exact reads_processCall hp "LogicToAccess" iface.logicToAccess _ s m.seqid
      (LogicToAccess.reads_readArgs hp m.structName hm.fields hd)
  · have hasked : asked m = none := by
      rw [asked, if_neg haccess, if_neg hlogic]
    have hskip := hp.skip_write (.struct m.structName m.fields) 0 hm.fields
      (by rw [TValue.levels]; omega)
    rw [answerTo, hasked]
    exact hskip.bind (hp.messageEnd.bind_nil_right (reads_pure _))

theorem reads_process (hp : p.Lawful) (iface : Iface σ) {m : TMessage} (hm : IsCall p m) (s : σ) :
    Reads (process p iface s) (p.writeMessage m)
      (((answerTo iface m).run s).2, writeAnswer p m ((answerTo iface m).run s).1) := by
  refine (hp.message m.name m.type m.seqid hm.name).bind ?_
  simp only [if_pos hm.type]
  exact reads_dispatchCall hp iface hm s

/-- The replies to the messages of a connection, with what became of each. -/
def writeAnswers (p : TProtocol) (ms : List TMessage)
    (outcomes : List (Except TApplicationException Unit)) : List Byte :=
  (ms.zip outcomes).flatMap fun e => writeAnswer p e.1 e.2

/-- Whatever calls are on a connection, known or not, each is taken to its end and answered once,
in the order they came. -/
theorem reads_serveConn (hp : p.Lawful) (iface : Iface σ) (ms : List TMessage)
    (hms : ∀ m ∈ ms, IsCall p m) (s : σ) :
    Reads (serveConn p iface ms.length s) (ms.flatMap p.writeMessage)
      (((ms.mapM (answerTo iface)).run s).2, writeAnswers p ms ((ms.mapM (answerTo iface)).run s).1) := by
  induction ms generalizing s with
  | nil => exact reads_pure _
  | cons m ms ih =>
    obtain ⟨hm, hms⟩ := List.forall_mem_cons.1 hms
    have hrest := ih hms ((answerTo iface m).run s).2
    rw [List.mapM_cons]
    exact (reads_process hp iface hm s).bind (hrest.bind_pure)

/-- The handler goes through the calls asked for, in order, as if it was called directly. -/
theorem run_answers (iface : Iface σ) (ms : List TMessage) (s : σ) :
    ((ms.mapM (answerTo iface)).run s).2 = (((ms.filterMap asked).mapM iface.call).run s).2 := by
  induction ms generalizing s with
  | nil => rfl
  | cons m ms ih =>
    rw [List.mapM_cons, List.filterMap_cons]
    rcases hc : asked m with _ | c
    · have hm : (answerTo iface m).run s = (.error (invalidMethod m.name), s) := by
        rw [answerTo, hc]
        rfl
      show ((ms.mapM (answerTo iface)).run ((answerTo iface m).run s).2).2 = _
      rw [hm, ih]
    · show ((ms.mapM (answerTo iface)).run ((answerTo iface m).run s).2).2 = _
      rw [run_answerTo iface hc, ih, List.mapM_cons]
      rfl

/-- A handler that keeps what it is given, and throws on an empty request. -/
def recorder : Iface (List (List Byte)) where
  accessToLogic request s := (if request.isEmpty then .error [1#8] else .ok (), s ++ [request])
  logicToAccess _ s := (.ok (), s)

/-- A method nobody knows, and a request whose only field nobody knows. -/
def strayCalls : List TMessage :=
  [⟨[80#8], .call, 4, [], [(⟨[], 1⟩, .i32 3)]⟩,
    ⟨ascii "AccessToLogic", .call, 5, [], [(⟨[], 2⟩, .i32 3)]⟩]

end Server

end ShortMessage
