import ShortMessage.Lib.Thrift

/-!
# The binary protocol

`TBinaryProtocol`: words are written most significant byte first, a string after its length, a
field after its type and its identifier; structures, and the ends of things, are not written at
all. A message begins with a version word.
-/

namespace Thrift

open CMemory Reader

namespace TType

def all : List TType :=
  [stop, bool, byte, double, i16, i32, i64, string, struct, map, set, list]

def code : TType → Byte
  | stop => 0
  | bool => 2
  | byte => 3
  | double => 4
  | i16 => 6
  | i32 => 8
  | i64 => 10
  | string => 11
  | struct => 12
  | map => 13
  | set => 14
  | list => 15

def ofCode (b : Byte) : Option TType := all.find? (·.code = b)

theorem ofCode_code (t : TType) : ofCode t.code = some t := by
  cases t <;> rfl

end TType

namespace TMessageType

def all : List TMessageType := [call, reply, exception, oneway]

def code : TMessageType → BitVec 32
  | call => 1
  | reply => 2
  | exception => 3
  | oneway => 4

def ofCode (b : BitVec 32) : Option TMessageType := all.find? (·.code = b)

end TMessageType

namespace Binary

/-! ## Items -/

def writeI16 (v : BitVec 16) : List Byte := [v.extractLsb' 8 8, v.extractLsb' 0 8]

def writeI32 (v : BitVec 32) : List Byte :=
  [v.extractLsb' 24 8, v.extractLsb' 16 8, v.extractLsb' 8 8, v.extractLsb' 0 8]

def writeString (s : List Byte) : List Byte := writeI32 (.ofNat 32 s.length) ++ s

def readI16 : Reader Byte (BitVec 16) := do
  let a ← next
  let b ← next
  return a ++ b

def readI32 : Reader Byte (BitVec 32) := do
  let a ← next
  let b ← next
  let c ← next
  let d ← next
  return a ++ b ++ c ++ d

/-- So many bytes; a negative size is refused. -/
def readBody (size : BitVec 32) : Reader Byte (List Byte) :=
  if size.toInt < 0 then failure else take size.toNat

def readString : Reader Byte (List Byte) := do
  let size ← readI32
  readBody size

def readType : Reader Byte TType := do
  let b ← next
  match TType.ofCode b with
  | some t => return t
  | none => failure

/-- `VERSION_1`. -/
def version : BitVec 32 := 0x80010000#32

def readMessageType (b : BitVec 32) : Reader Byte TMessageType :=
  match TMessageType.ofCode b with
  | some t => return t
  | none => failure

/-- A message without a version begins with the length of its name. -/
def readMessageBegin : Reader Byte (List Byte × TMessageType × BitVec 32) := do
  let size ← readI32
  if size.toInt < 0 then
    if size &&& 0xffff0000#32 ≠ version then failure
    let t ← readMessageType (size &&& 0xff#32)
    let name ← readString
    let seqid ← readI32
    return (name, t, seqid)
  else
    let name ← readBody size
    let b ← next
    let t ← readMessageType (b.setWidth 32)
    let seqid ← readI32
    return (name, t, seqid)

def readFieldBegin : Reader Byte (TType × BitVec 16) := do
  let t ← readType
  if t = .stop then return (t, 0)
  let id ← readI16
  return (t, id)

def wire : TWire where
  writeMessageBegin name t seqid :=
    writeI32 (version ||| t.code) ++ (writeString name ++ writeI32 seqid)
  writeMessageEnd := []
  writeStructBegin _ := []
  writeStructEnd := []
  writeFieldBegin _ t id := t.code :: writeI16 id
  writeFieldEnd := []
  writeFieldStop := [TType.stop.code]
  writeI32 := writeI32
  writeString := writeString
  readMessageBegin := readMessageBegin
  readMessageEnd := pure ()
  readStructBegin := pure ()
  readStructEnd := pure ()
  readFieldBegin := readFieldBegin
  readFieldEnd := pure ()
  readI32 := readI32
  readString := readString

/-! ## Skipping -/

def times (r : Reader Byte Unit) : ℕ → Reader Byte Unit
  | 0 => pure ()
  | n + 1 => do
    r
    times r n

/-- `skip`, with so many levels left. -/
def skip : ℕ → TType → Reader Byte Unit
  | 0, _ => failure
  | n + 1, t =>
    match t with
    | .stop => pure ()
    | .bool => do let _ ← take 1
    | .byte => do let _ ← take 1
    | .i16 => do let _ ← take 2
    | .i32 => do let _ ← readI32
    | .i64 => do let _ ← take 8
    | .double => do let _ ← take 8
    | .string => do let _ ← readString
    | .struct => wire.structLoop (fun _ ftype _ => skip n ftype) ()
    | .map => do
      let keyType ← readType
      let valType ← readType
      let size ← readI32
      times (do skip n keyType; skip n valType) size.toNat
    | .set => do
      let elemType ← readType
      let size ← readI32
      times (skip n elemType) size.toNat
    | .list => do
      let elemType ← readType
      let size ← readI32
      times (skip n elemType) size.toNat

/-! ## Exceptions -/

def messageName : TName := ⟨ascii "message", 1⟩

def typeName : TName := ⟨ascii "type", 2⟩

def writeException (x : TApplicationException) : List Byte :=
  wire.write (.struct (ascii "TApplicationException") [(messageName, .string x.message), (typeName, .i32 x.type)])

def readExceptionField (n : ℕ) (x : TApplicationException) (ftype : TType) (fid : BitVec 16) :
    Reader Byte TApplicationException :=
  match fid.toNat with
  | 1 => fieldCase (skip n) .string (do return { x with message := ← readString }) ftype x
  | 2 => fieldCase (skip n) .i32 (do return { x with type := ← readI32 }) ftype x
  | _ => do
    skip n ftype
    return x

def readException (n : ℕ) : Reader Byte TApplicationException :=
  wire.structLoop (readExceptionField n) (.unknown [])

/-! ## Laws -/

theorem reads_readI16 (v : BitVec 16) : Reads readI16 (writeI16 v) v := by
  intro rest
  exact congrArg (fun v => some (v, rest)) (CMemory.word16_bytes v)

theorem reads_readI32 (v : BitVec 32) : Reads readI32 (writeI32 v) v := by
  intro rest
  exact congrArg (fun v => some (v, rest)) (CMemory.word32_bytes v)

theorem reads_readBody {s : List Byte} (hs : s.length < 2 ^ 31) :
    Reads (readBody (.ofNat 32 s.length)) s s := by
  have hmod : s.length % 2 ^ 32 = s.length := Nat.mod_eq_of_lt (by omega)
  have hnat : (BitVec.ofNat 32 s.length).toNat = s.length := by
    rw [BitVec.toNat_ofNat, hmod]
  rw [readBody, if_neg, hnat]
  · exact reads_take s
  · rw [BitVec.toInt_eq_toNat_of_lt (by omega), hnat]
    omega

theorem reads_readString {s : List Byte} (hs : s.length < 2 ^ 31) :
    Reads readString (writeString s) s :=
  (reads_readI32 _).bind (reads_readBody hs)

theorem reads_readType (t : TType) : Reads readType [t.code] t := by
  have ht : Reads (match TType.ofCode t.code with
    | some t => pure t
    | none => failure : Reader Byte TType) [] t := by
    rw [TType.ofCode_code]
    exact reads_pure t
  exact (reads_next t.code).bind ht

theorem reads_readFieldBegin {t : TType} (ht : t ≠ .stop) (id : BitVec 16) :
    Reads readFieldBegin (t.code :: writeI16 id) (t, id) := by
  refine (reads_readType t).bind ?_
  rw [if_neg ht]
  exact (reads_readI16 id).bind_pure

theorem reads_readMessageBegin {name : List Byte} (hname : name.length < 2 ^ 31)
    (t : TMessageType) (seqid : BitVec 32) :
    Reads readMessageBegin (wire.writeMessageBegin name t seqid) (name, t, seqid) := by
  refine (reads_readI32 _).bind ?_
  have hneg : (version ||| t.code).toInt < 0 := by cases t <;> decide
  have hversion : ¬ (version ||| t.code) &&& 0xffff0000#32 ≠ version := by cases t <;> decide
  have htype : Reads (readMessageType ((version ||| t.code) &&& 0xff#32)) [] t := by
    cases t <;> exact reads_pure _
  rw [if_pos hneg]
  simp only [if_neg hversion]
  exact htype.bind_nil ((reads_readString hname).bind (reads_readI32 seqid).bind_pure)

theorem faithful : wire.Faithful where
  message _ t seqid hname := reads_readMessageBegin hname t seqid
  messageEnd := reads_pure ()
  structBegin _ := reads_pure ()
  structEnd := reads_pure ()
  fieldBegin _ _ id ht := reads_readFieldBegin ht id
  fieldBegin_ne_nil _ _ _ := List.cons_ne_nil _ _
  fieldEnd := reads_pure ()
  fieldStop := ⟨0, (reads_readType .stop).bind_nil_right (reads_pure _)⟩
  i32 := reads_readI32
  string _ := reads_readString

theorem reads_readException (n : ℕ) (x : TApplicationException)
    (hx : x.message.length < 2 ^ 31) : Reads (readException n) (writeException x) x := by
  let effect (y : TApplicationException) (f : TName × TValue) : TApplicationException :=
    match f with
    | (_, .string s) => { y with message := s }
    | (_, .i32 v) => { y with type := v }
    | _ => y
  refine faithful.structLoop effect _ _ ?_
  simp only [List.forall_mem_cons, List.not_mem_nil, false_imp_iff, implies_true, and_true]
  refine ⟨⟨TType.noConfusion, fun y => ?_⟩, TType.noConfusion, fun y => ?_⟩
  · exact reads_fieldCase (fun _ => (reads_readString hx).bind_pure) fun h => absurd rfl h
  · exact reads_fieldCase (fun _ => (reads_readI32 x.type).bind_pure) fun h => absurd rfl h

end Binary

/-- The binary protocol, with a recursion limit. -/
def binary (limit : ℕ) : TProtocol :=
  { Binary.wire with
    recursionLimit := limit
    skip := fun depth => Binary.skip (limit - depth)
    writeException := Binary.writeException
    readException := fun depth => Binary.readException (limit - depth) }

open Binary in
theorem binary_skip {limit depth : ℕ} (hd : depth < (binary limit).recursionLimit) (t : TType) :
    (binary limit).skip depth t = skip (limit - (depth + 1) + 1) t := by
  have hn : limit - depth = limit - (depth + 1) + 1 := by
    have hd : depth < limit := hd
    omega
  exact congrArg (fun n => skip n t) hn

open Binary in
theorem binary_lawful (limit : ℕ) : (binary limit).Lawful where
  toFaithful := faithful
  skip_i32 depth hd v := by
    rw [binary_skip hd]
    exact (reads_readI32 v).bind_pure
  skip_string depth hd s hs := by
    rw [binary_skip hd]
    exact (reads_readString hs).bind_pure
  skip_struct depth hd name fields hfields := by
    rw [binary_skip hd]
    exact faithful.structLoop (fun _ _ => ()) name ()
      fun f hf => ⟨(hfields f hf).1, fun _ => (hfields f hf).2⟩
  exception _ _ x hx := reads_readException _ x hx

end Thrift
