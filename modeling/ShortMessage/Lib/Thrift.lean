import Mathlib.Algebra.Group.Nat.Defs
import Mathlib.Data.List.Basic
import Mathlib.Tactic.Common
import ShortMessage.Lib.CMemory
import ShortMessage.Lib.LastWrite
import ShortMessage.Lib.Reader

/-!
# Thrift protocols

What generated code uses of a protocol: how it writes each item, how it reads each, how it skips a
value of a type it does not expect. A reader counts the structures and values it is inside of, and
fails at `recursionLimit`. `Lawful` says that what a protocol writes it reads back, and that it can
skip the values it writes.

`TValue` is what lies on the wire, whatever program wrote it: a structure is a list of fields, in
any order, with any identifiers. `readStruct` is the loop of a generated reader.
-/

namespace Thrift

open CMemory Reader

/-- The bytes of a string constant. -/
def ascii (s : String) : List Byte := s.toList.map fun c => .ofNat 8 c.toNat

inductive TType
  | stop
  | bool
  | byte
  | double
  | i16
  | i32
  | i64
  | string
  | struct
  | map
  | set
  | list
deriving DecidableEq, Repr

inductive TMessageType
  | call
  | reply
  | exception
  | oneway
deriving DecidableEq, Repr

/-- The exception that goes over the wire. -/
structure TApplicationException where
  message : List Byte
  type : BitVec 32
deriving DecidableEq, Repr

/-- `UNKNOWN`, the type of an exception made of a message alone. -/
def TApplicationException.unknown (message : List Byte) : TApplicationException := ⟨message, 0⟩

/-- `UNKNOWN_METHOD`. -/
def TApplicationException.unknownMethod (message : List Byte) : TApplicationException :=
  ⟨message, 1⟩

/-- The items of a message, except for skipping. Names of structures and fields are written, but
what a reader gets for them is not used. -/
structure TWire where
  writeMessageBegin : List Byte → TMessageType → BitVec 32 → List Byte
  writeMessageEnd : List Byte
  writeStructBegin : List Byte → List Byte
  writeStructEnd : List Byte
  writeFieldBegin : List Byte → TType → BitVec 16 → List Byte
  writeFieldEnd : List Byte
  writeFieldStop : List Byte
  writeI32 : BitVec 32 → List Byte
  writeString : List Byte → List Byte
  readMessageBegin : Reader Byte (List Byte × TMessageType × BitVec 32)
  readMessageEnd : Reader Byte Unit
  readStructBegin : Reader Byte Unit
  readStructEnd : Reader Byte Unit
  readFieldBegin : Reader Byte (TType × BitVec 16)
  readFieldEnd : Reader Byte Unit
  readI32 : Reader Byte (BitVec 32)
  readString : Reader Byte (List Byte)

/-- `depth` is how many structures and values the reader is inside of already. -/
structure TProtocol extends TWire where
  recursionLimit : ℕ
  skip : (depth : ℕ) → TType → Reader Byte Unit
  writeException : TApplicationException → List Byte
  readException : (depth : ℕ) → Reader Byte TApplicationException

/-! ## Reading a structure -/

section Loop

variable {α : Type}

/-- The `while (true)` of a generated reader: `field` reads a field of the type and the identifier
it is given, until a header says stop. -/
def TWire.fieldLoop (w : TWire) (field : α → TType → BitVec 16 → Reader Byte α) :
    ℕ → α → Reader Byte α
  | 0, _ => failure
  | n + 1, a => do
    let (ftype, fid) ← w.readFieldBegin
    if ftype = .stop then return a
    let a ← field a ftype fid
    w.readFieldEnd
    w.fieldLoop field n a

/-- From a structure's begin to its end. A header takes bytes, so that the loop goes round no more
often than there are bytes left. -/
def TWire.structLoop (w : TWire) (field : α → TType → BitVec 16 → Reader Byte α) (a : α) :
    Reader Byte α := do
  w.readStructBegin
  let left ← get
  let a ← w.fieldLoop field (left.length + 1) a
  w.readStructEnd
  return a

/-- `TInputRecursionTracker`. -/
def TProtocol.track (p : TProtocol) (depth : ℕ) : Reader Byte Unit :=
  if depth < p.recursionLimit then pure () else failure

/-- A generated reader, of which `field` is the body of the loop. -/
def TProtocol.readStruct (p : TProtocol) (field : α → TType → BitVec 16 → Reader Byte α)
    (depth : ℕ) (a : α) : Reader Byte α := do
  p.track depth
  p.structLoop field a

/-- A `case` of a generated reader: a field of the type expected is read, another one skipped. -/
def fieldCase (skip : TType → Reader Byte Unit) (expected : TType) (read : Reader Byte α)
    (ftype : TType) (a : α) : Reader Byte α :=
  if ftype = expected then read
  else do
    skip ftype
    return a

end Loop

/-! ## Values -/

structure TName where
  name : List Byte
  id : BitVec 16
deriving DecidableEq, Repr

/-- A value on the wire. One of any other type is known by its bytes. -/
inductive TValue
  | i32 (v : BitVec 32)
  | string (s : List Byte)
  | struct (name : List Byte) (fields : List (TName × TValue))
  | other (type : TType) (bytes : List Byte)

def TValue.type : TValue → TType
  | .i32 _ => .i32
  | .string _ => .string
  | .struct _ _ => .struct
  | .other t _ => t

mutual

def TWire.write (w : TWire) : TValue → List Byte
  | .i32 v => w.writeI32 v
  | .string s => w.writeString s
  | .struct name fields =>
    w.writeStructBegin name ++ (w.writeFields fields ++ (w.writeFieldStop ++ w.writeStructEnd))
  | .other _ bytes => bytes

def TWire.writeFields (w : TWire) : List (TName × TValue) → List Byte
  | [] => []
  | (n, v) :: fields =>
    w.writeFieldBegin n.name v.type n.id ++ (w.write v ++ (w.writeFieldEnd ++ w.writeFields fields))

end

/-- A message with the structure it carries. -/
structure TMessage where
  name : List Byte
  type : TMessageType
  seqid : BitVec 32
  structName : List Byte
  fields : List (TName × TValue)

def TWire.writeMessage (w : TWire) (m : TMessage) : List Byte :=
  w.writeMessageBegin m.name m.type m.seqid ++
    (w.write (.struct m.structName m.fields) ++ w.writeMessageEnd)

/-- `g` of an `i32`, and `a` of any other value. -/
def TValue.onI32 {α : Type} (g : BitVec 32 → α) (a : α) : TValue → α
  | .i32 v => g v
  | _ => a

def TValue.onString {α : Type} (g : List Byte → α) (a : α) : TValue → α
  | .string s => g s
  | _ => a

def TValue.onStruct {α : Type} (g : List (TName × TValue) → α) (a : α) : TValue → α
  | .struct _ fields => g fields
  | _ => a

/-! The `i32`s and the strings among a structure's fields, as writes to their identifiers. -/

def i32s : TName × TValue → List (BitVec 16 × BitVec 32)
  | (n, .i32 v) => [(n.id, v)]
  | _ => []

def strings : TName × TValue → List (BitVec 16 × List Byte)
  | (n, .string s) => [(n.id, s)]
  | _ => []

/-- The last `i32` among the fields with an identifier. -/
def lastI32 (fields : List (TName × TValue)) (id : BitVec 16) : Option (BitVec 32) :=
  LastWrite.last (fields.flatMap i32s) id

def lastString (fields : List (TName × TValue)) (id : BitVec 16) : Option (List Byte) :=
  LastWrite.last (fields.flatMap strings) id

mutual

/-- How many levels a reader goes through when it skips the value. -/
def TValue.levels : TValue → ℕ
  | .struct _ fields => fieldLevels fields + 1
  | _ => 1

def fieldLevels : List (TName × TValue) → ℕ
  | [] => 0
  | (_, v) :: fields => max v.levels (fieldLevels fields)

end

mutual

/-- Strings have a length that an `i32` holds, and the protocol can skip the values of other types
at any depth. -/
def TProtocol.Wf (p : TProtocol) : TValue → Prop
  | .i32 _ => True
  | .string s => s.length < 2 ^ 31
  | .struct _ fields => p.WfFields fields
  | .other t bytes => t ≠ .stop ∧ t ≠ .i32 ∧ t ≠ .string ∧ t ≠ .struct ∧
      ∀ depth < p.recursionLimit, Reads (p.skip depth t) bytes ()

def TProtocol.WfFields (p : TProtocol) : List (TName × TValue) → Prop
  | [] => True
  | (_, v) :: fields => p.Wf v ∧ p.WfFields fields

end

/-! ## Laws -/

/-- What each item writes is read back as that item. -/
structure TWire.Faithful (w : TWire) : Prop where
  message : ∀ name t seqid, name.length < 2 ^ 31 →
    Reads w.readMessageBegin (w.writeMessageBegin name t seqid) (name, t, seqid)
  messageEnd : Reads w.readMessageEnd w.writeMessageEnd ()
  structBegin : ∀ name, Reads w.readStructBegin (w.writeStructBegin name) ()
  structEnd : Reads w.readStructEnd w.writeStructEnd ()
  fieldBegin : ∀ name t id, t ≠ .stop →
    Reads w.readFieldBegin (w.writeFieldBegin name t id) (t, id)
  fieldBegin_ne_nil : ∀ name t id, w.writeFieldBegin name t id ≠ []
  fieldEnd : Reads w.readFieldEnd w.writeFieldEnd ()
  fieldStop : ∃ id, Reads w.readFieldBegin w.writeFieldStop (.stop, id)
  i32 : ∀ v, Reads w.readI32 (w.writeI32 v) v
  string : ∀ s, s.length < 2 ^ 31 → Reads w.readString (w.writeString s) s

/-- And what is not expected is skipped: a structure, when each of its fields is at the next
depth. -/
structure TProtocol.Lawful (p : TProtocol) : Prop extends p.Faithful where
  skip_i32 : ∀ depth < p.recursionLimit, ∀ v, Reads (p.skip depth .i32) (p.writeI32 v) ()
  skip_string : ∀ depth < p.recursionLimit, ∀ s, s.length < 2 ^ 31 →
    Reads (p.skip depth .string) (p.writeString s) ()
  skip_struct : ∀ depth < p.recursionLimit, ∀ name fields,
    (∀ f ∈ fields, f.2.type ≠ .stop ∧
      Reads (p.skip (depth + 1) f.2.type) (p.write f.2) ()) →
    Reads (p.skip depth .struct) (p.write (.struct name fields)) ()
  exception : ∀ depth < p.recursionLimit, ∀ x, x.message.length < 2 ^ 31 →
    Reads (p.readException depth) (p.writeException x) x

/-! ## What a generated reader does to a structure -/

section Loop

variable {α : Type} {w : TWire} {p : TProtocol} {field : α → TType → BitVec 16 → Reader Byte α}
  {effect : α → TName × TValue → α} {fields : List (TName × TValue)} {depth : ℕ}

theorem TWire.Faithful.length_writeFields (hw : w.Faithful) :
    ∀ fields, fields.length ≤ (w.writeFields fields).length
  | [] => Nat.zero_le _
  | (n, v) :: fields => by
    have ih := length_writeFields hw fields
    have hpos := List.length_pos_iff.2 (hw.fieldBegin_ne_nil n.name v.type n.id)
    simp only [writeFields, List.length_append, List.length_cons]
    omega

theorem TWire.Faithful.fieldLoop_stop (hw : w.Faithful) (n : ℕ) (a : α) :
    Reads (w.fieldLoop field (n + 1) a) w.writeFieldStop a := by
  obtain ⟨id, hstop⟩ := hw.fieldStop
  exact hstop.bind_nil_right (reads_pure a)

theorem TWire.Faithful.fieldLoop_next (hw : w.Faithful) {n : ℕ} {a b c : α} {t : TType}
    {bytes rest : List Byte} {id : BitVec 16} (name : List Byte) (ht : t ≠ .stop)
    (hf : Reads (field a t id) bytes b) (hrest : Reads (w.fieldLoop field n b) rest c) :
    Reads (w.fieldLoop field (n + 1) a)
      (w.writeFieldBegin name t id ++ (bytes ++ (w.writeFieldEnd ++ rest))) c := by
  refine (hw.fieldBegin name t id ht).bind (b := c) ?_
  simp only [if_neg ht]
  exact hf.bind (hw.fieldEnd.bind hrest)

/-- The fields are read one after the other: the loop is a fold over them. -/
theorem TWire.Faithful.fieldLoop (hw : w.Faithful) {n : ℕ} {a : α} (hn : fields.length < n)
    (hfield : ∀ f ∈ fields, f.2.type ≠ .stop ∧
      ∀ a, Reads (field a f.2.type f.1.id) (w.write f.2) (effect a f)) :
    Reads (w.fieldLoop field n a) (w.writeFields fields ++ w.writeFieldStop)
      (fields.foldl effect a) := by
  induction fields generalizing n a with
  | nil =>
    obtain ⟨n, rfl⟩ := Nat.exists_eq_add_one_of_ne_zero (Nat.ne_zero_of_lt hn)
    exact hw.fieldLoop_stop n a
  | cons f fields ih =>
    obtain ⟨n, rfl⟩ := Nat.exists_eq_add_one_of_ne_zero (Nat.ne_zero_of_lt hn)
    obtain ⟨hstop, hf⟩ := hfield f List.mem_cons_self
    have hrest := ih (n := n) (a := effect a f) (by simpa using hn)
      fun g hg => hfield g (List.mem_cons_of_mem _ hg)
    refine (hw.fieldLoop_next f.1.name hstop (hf a) hrest).of_eq ?_
    simp only [writeFields, List.append_assoc]

variable (effect) in
theorem TWire.Faithful.structLoop (hw : w.Faithful) (name : List Byte) (a : α)
    (hfield : ∀ f ∈ fields, f.2.type ≠ .stop ∧
      ∀ a, Reads (field a f.2.type f.1.id) (w.write f.2) (effect a f)) :
    Reads (w.structLoop field a) (w.write (.struct name fields)) (fields.foldl effect a) := by
  refine (hw.structBegin name).bind ?_
  intro rest
  have hlen := hw.length_writeFields fields
  rw [run_get_bind]
  refine Reads.of_eq ((hw.fieldLoop ?_ hfield).bind hw.structEnd.bind_pure) ?_ rest
  · simp only [List.length_append]
    omega
  · rw [List.append_assoc]

theorem reads_fieldCase {skip : TType → Reader Byte Unit} {expected ftype : TType}
    {read : Reader Byte α} {bytes : List Byte} {a b : α}
    (hread : ftype = expected → Reads read bytes b)
    (hskip : ftype ≠ expected → Reads (skip ftype) bytes () ∧ a = b) :
    Reads (fieldCase skip expected read ftype a) bytes b := by
  unfold fieldCase
  split_ifs with h
  · exact hread h
  · obtain ⟨hs, rfl⟩ := hskip h
    exact hs.bind_pure

theorem TProtocol.reads_track (hd : depth < p.recursionLimit) : Reads (p.track depth) [] () := by
  rw [track, if_pos hd]
  exact reads_pure ()

variable (effect) in
/-- A generated reader takes a structure to its end, each field having its effect in turn. -/
theorem TProtocol.Lawful.readStruct (hp : p.Lawful) (hd : depth < p.recursionLimit)
    (name : List Byte) (a : α)
    (hfield : ∀ f ∈ fields, f.2.type ≠ .stop ∧
      ∀ a, Reads (field a f.2.type f.1.id) (p.write f.2) (effect a f)) :
    Reads (p.readStruct field depth a) (p.write (.struct name fields)) (fields.foldl effect a) :=
  (reads_track hd).bind_nil (hp.structLoop effect name a hfield)

end Loop

/-! ## Skipping -/

section Skip

variable {p : TProtocol} {v : TValue} {fields : List (TName × TValue)} {depth : ℕ}

theorem TProtocol.Wf.type_ne_stop (hv : p.Wf v) : v.type ≠ .stop := by
  rcases v with _ | _ | _ | ⟨t, bytes⟩
  · exact TType.noConfusion
  · exact TType.noConfusion
  · exact TType.noConfusion
  · exact hv.1

theorem TProtocol.wfFields_iff : p.WfFields fields ↔ ∀ f ∈ fields, p.Wf f.2 := by
  induction fields with
  | nil => simp [WfFields]
  | cons f fields ih =>
    obtain ⟨n, v⟩ := f
    rw [WfFields, ih, List.forall_mem_cons]

theorem levels_le_fieldLevels {f : TName × TValue} (hf : f ∈ fields) :
    f.2.levels ≤ fieldLevels fields := by
  induction fields with
  | nil => simp at hf
  | cons g fields ih =>
    obtain ⟨n, v⟩ := g
    rw [fieldLevels]
    rcases List.mem_cons.1 hf with rfl | hf
    · exact Nat.le_max_left _ _
    · exact Nat.le_trans (ih hf) (Nat.le_max_right _ _)

mutual

/-- Any value within the levels left is skipped. -/
theorem TProtocol.Lawful.skip_write (hp : p.Lawful) : ∀ (v : TValue) (depth : ℕ), p.Wf v →
    depth + v.levels ≤ p.recursionLimit → Reads (p.skip depth v.type) (p.write v) ()
  | .i32 v, depth, _, hd => hp.skip_i32 depth hd v
  | .string s, depth, hs, hd => hp.skip_string depth hd s hs
  | .struct name fields, depth, hv, hd => by
    rw [TValue.levels] at hd
    exact hp.skip_struct depth (by omega) name fields
      (skip_writeFields hp fields (depth + 1) hv (by omega))
  | .other t bytes, depth, hv, hd =>
    hv.2.2.2.2 depth hd

theorem TProtocol.Lawful.skip_writeFields (hp : p.Lawful) :
    ∀ (fields : List (TName × TValue)) (depth : ℕ), p.WfFields fields →
      depth + fieldLevels fields ≤ p.recursionLimit →
      ∀ f ∈ fields, f.2.type ≠ .stop ∧ Reads (p.skip depth f.2.type) (p.write f.2) ()
  | [], _, _, _ => by simp
  | (_, v) :: fields, depth, hv, hd => by
    rw [fieldLevels] at hd
    refine List.forall_mem_cons.2 ⟨⟨hv.1.type_ne_stop, ?_⟩, ?_⟩
    · exact skip_write hp v depth hv.1 (by omega)
    · exact skip_writeFields hp fields depth hv.2 (by omega)

end

end Skip

/-! ## Cases of a generated reader -/

section Case

variable {α : Type} {p : TProtocol} {v : TValue} {depth : ℕ} {a : α}

theorem TProtocol.Lawful.fieldCase_i32 (hp : p.Lawful) (hv : p.Wf v)
    (hd : depth + v.levels ≤ p.recursionLimit) (g : BitVec 32 → α) :
    Reads (fieldCase (p.skip depth) .i32 (do return g (← p.readI32)) v.type a) (p.write v)
      (v.onI32 g a) := by
  refine reads_fieldCase (fun h => ?_) fun h => ⟨hp.skip_write v depth hv hd, ?_⟩
  · rcases v with v | _ | _ | ⟨t, bytes⟩
    · exact (hp.i32 v).bind_pure
    · cases h
    · cases h
    · exact absurd h hv.2.1
  · rcases v with _ | _ | _ | _
    · exact absurd rfl h
    all_goals rfl

theorem TProtocol.Lawful.fieldCase_string (hp : p.Lawful) (hv : p.Wf v)
    (hd : depth + v.levels ≤ p.recursionLimit) (g : List Byte → α) :
    Reads (fieldCase (p.skip depth) .string (do return g (← p.readString)) v.type a) (p.write v)
      (v.onString g a) := by
  refine reads_fieldCase (fun h => ?_) fun h => ⟨hp.skip_write v depth hv hd, ?_⟩
  · rcases v with _ | s | _ | ⟨t, bytes⟩
    · cases h
    · exact (hp.string s hv).bind_pure
    · cases h
    · exact absurd h hv.2.2.1
  · rcases v with _ | _ | _ | _
    case string => exact absurd rfl h
    all_goals rfl

theorem TProtocol.Lawful.fieldCase_struct (hp : p.Lawful) (hv : p.Wf v)
    (hd : depth + v.levels ≤ p.recursionLimit) {read : Reader Byte α}
    (g : List (TName × TValue) → α)
    (hread : ∀ name fields, v = .struct name fields → Reads read (p.write v) (g fields)) :
    Reads (fieldCase (p.skip depth) .struct read v.type a) (p.write v) (v.onStruct g a) := by
  refine reads_fieldCase (fun h => ?_) fun h => ⟨hp.skip_write v depth hv hd, ?_⟩
  · rcases v with _ | _ | ⟨name, fields⟩ | ⟨t, bytes⟩
    · cases h
    · cases h
    · exact hread name fields rfl
    · exact absurd h hv.2.2.2.1
  · rcases v with _ | _ | _ | _
    case struct => exact absurd rfl h
    all_goals rfl

theorem last_i32s (f : TName × TValue) (id : BitVec 16) :
    LastWrite.last (i32s f) id = if f.1.id = id then f.2.onI32 some none else none := by
  obtain ⟨n, v⟩ := f
  rcases v with v | _ | _ | _
  · exact LastWrite.last_singleton id n.id v
  all_goals exact (ite_self none).symm

theorem last_strings (f : TName × TValue) (id : BitVec 16) :
    LastWrite.last (strings f) id = if f.1.id = id then f.2.onString some none else none := by
  obtain ⟨n, v⟩ := f
  rcases v with _ | s | _ | _
  case string => exact LastWrite.last_singleton id n.id s
  all_goals exact (ite_self none).symm

end Case

end Thrift
