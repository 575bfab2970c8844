import Mathlib.Data.List.TakeWhile
import Mathlib.Tactic.Common

/-!
# C memory, as a checked pointer sees it

A function that reads through a pointer or writes a fixed buffer returns in `Except Fault`: an
access outside the object is a `Fault`, and so is a failed assertion or a call that never returns.
A pointer is the list of bytes readable from it on, so advancing it drops bytes. Words are stored
least significant byte first, and `swap16`, `swap32` are the byte swaps of `htons` and `htonl`.
-/

namespace CMemory

universe u

abbrev Byte := BitVec 8

inductive Fault
  | readPast
  | writePast
  | assertion
  | nullPointer
  | blocked
deriving DecidableEq, Repr

/-- The faults of an access outside an object, or of an assertion. -/
def Fault.OutOfBounds : Fault → Prop
  | .readPast | .writePast | .assertion => True
  | .nullPointer | .blocked => False

instance : DecidablePred Fault.OutOfBounds := fun f => by
  cases f <;> unfold Fault.OutOfBounds <;> infer_instance

/-! ## Sequencing -/

section Sequencing

variable {ε : Type*} {α β : Type u}

theorem bind_eq_ok {x : Except ε α} {f : α → Except ε β} {b : β} :
    (x >>= f) = .ok b ↔ ∃ a, x = .ok a ∧ f a = .ok b := by
  rcases x with e | a
  · simp [bind, Except.bind]
  · simp [bind, Except.bind]

@[simp] theorem ok_bind (a : α) (f : α → Except ε β) : (Except.ok a >>= f) = f a := rfl

@[simp] theorem error_bind (e : ε) (f : α → Except ε β) : (Except.error e >>= f) = .error e := rfl

end Sequencing

/-- The computation makes no access outside an object and fails no assertion. -/
def InBounds {α : Type*} (x : Except Fault α) : Prop := ∀ f, x = .error f → ¬ f.OutOfBounds

section InBounds

variable {α β : Type u}

@[simp] theorem inBounds_ok (a : α) : InBounds (.ok a : Except Fault α) := by
  intro f h
  cases h

@[simp] theorem inBounds_pure (a : α) : InBounds (pure a : Except Fault α) := inBounds_ok a

@[simp] theorem inBounds_error {f : Fault} :
    InBounds (.error f : Except Fault α) ↔ ¬ f.OutOfBounds := by
  refine ⟨fun h => h f rfl, fun h g hg => ?_⟩
  cases hg
  exact h

/-- A sequence stays in bounds when its first part does, and the rest does from what it returns. -/
theorem inBounds_bind {x : Except Fault α} {f : α → Except Fault β} :
    InBounds (x >>= f) ↔ InBounds x ∧ ∀ a, x = .ok a → InBounds (f a) := by
  rcases x with e | a
  · simp
  · simp

end InBounds

/-- The computation fails only by an access outside an object, or an assertion. -/
def Confined {α : Type*} (x : Except Fault α) : Prop := ∀ f, x = .error f → f.OutOfBounds

section Confined

variable {α β : Type u} {x : Except Fault α}

theorem confined_ok (a : α) : Confined (.ok a : Except Fault α) := nofun

theorem confined_bind {f : α → Except Fault β} (hx : Confined x) (hf : ∀ a, Confined (f a)) :
    Confined (x >>= f) := by
  rcases x with e | a
  · intro g hg
    cases hg
    exact hx e rfl
  · exact hf a

/-- The computation fails only in one of these ways. -/
def FailsIn {α : Type*} (S : Fault → Prop) (x : Except Fault α) : Prop := ∀ f, x = .error f → S f

variable {S : Fault → Prop}

theorem failsIn_ok (a : α) : FailsIn S (.ok a : Except Fault α) := nofun

theorem failsIn_bind {f : α → Except Fault β} (hx : FailsIn S x) (hf : ∀ a, FailsIn S (f a)) :
    FailsIn S (x >>= f) := by
  rcases x with e | a
  · intro g hg
    cases hg
    exact hx e rfl
  · exact hf a

theorem Confined.failsIn (hx : Confined x) (hS : ∀ f : Fault, f.OutOfBounds → S f) :
    FailsIn S x :=
  fun f h => hS f (hx f h)

theorem FailsIn.returns (hx : FailsIn Fault.OutOfBounds x) (hb : InBounds x) : ∃ a, x = .ok a := by
  rcases x with e | a
  · exact absurd (hx e rfl) (hb e rfl)
  · exact ⟨a, rfl⟩

end Confined

/-! ## Words as bytes -/

def le16 (x : BitVec 16) : List Byte := [x.extractLsb' 0 8, x.extractLsb' 8 8]

def le32 (x : BitVec 32) : List Byte :=
  [x.extractLsb' 0 8, x.extractLsb' 8 8, x.extractLsb' 16 8, x.extractLsb' 24 8]

def swap16 (x : BitVec 16) : BitVec 16 := x.extractLsb' 0 8 ++ x.extractLsb' 8 8

def swap32 (x : BitVec 32) : BitVec 32 :=
  x.extractLsb' 0 8 ++ x.extractLsb' 8 8 ++ x.extractLsb' 16 8 ++ x.extractLsb' 24 8

@[simp] theorem length_le16 (x : BitVec 16) : (le16 x).length = 2 := rfl

@[simp] theorem length_le32 (x : BitVec 32) : (le32 x).length = 4 := rfl

theorem cat16_bytes (a b : Byte) :
    (a ++ b).extractLsb' 0 8 = b ∧ (a ++ b).extractLsb' 8 8 = a := by
  refine ⟨?_, ?_⟩ <;> ext i hi <;>
    simp only [BitVec.getElem_extractLsb', BitVec.getLsbD_append]
  · rw [if_pos (by omega), Nat.zero_add, BitVec.getLsbD_eq_getElem]
  · rw [if_neg (by omega), Nat.add_sub_cancel_left, BitVec.getLsbD_eq_getElem]

theorem cat32_bytes (a b c d : Byte) :
    (a ++ b ++ c ++ d).extractLsb' 0 8 = d ∧ (a ++ b ++ c ++ d).extractLsb' 8 8 = c ∧
      (a ++ b ++ c ++ d).extractLsb' 16 8 = b ∧ (a ++ b ++ c ++ d).extractLsb' 24 8 = a := by
  refine ⟨?_, ?_, ?_, ?_⟩ <;> ext i hi <;>
    simp (disch := omega) only [BitVec.getElem_extractLsb', BitVec.getLsbD_append, if_pos, if_neg]
      <;> rw [← BitVec.getLsbD_eq_getElem] <;> congr 1 <;> omega

theorem word16_bytes (x : BitVec 16) : x.extractLsb' 8 8 ++ x.extractLsb' 0 8 = x := by
  ext i hi
  simp only [BitVec.getElem_append, BitVec.getElem_extractLsb']
  split_ifs <;> rw [BitVec.getLsbD_eq_getElem (by omega)] <;> congr 1 <;> omega

theorem word32_bytes (x : BitVec 32) :
    x.extractLsb' 24 8 ++ x.extractLsb' 16 8 ++ x.extractLsb' 8 8 ++ x.extractLsb' 0 8 = x := by
  ext i hi
  simp only [BitVec.getElem_append, BitVec.getElem_extractLsb']
  split_ifs <;> rw [BitVec.getLsbD_eq_getElem (by omega)] <;> congr 1 <;> omega

@[simp] theorem swap16_swap16 (x : BitVec 16) : swap16 (swap16 x) = x := by
  obtain ⟨h0, h1⟩ := cat16_bytes (x.extractLsb' 0 8) (x.extractLsb' 8 8)
  rw [swap16, swap16, h0, h1, word16_bytes]

@[simp] theorem swap32_swap32 (x : BitVec 32) : swap32 (swap32 x) = x := by
  obtain ⟨h0, h1, h2, h3⟩ := cat32_bytes (x.extractLsb' 0 8) (x.extractLsb' 8 8)
    (x.extractLsb' 16 8) (x.extractLsb' 24 8)
  rw [swap32, swap32, h0, h1, h2, h3, word32_bytes]

/-! ## Reading through a pointer -/

/-- The bytes readable from a pointer on. -/
abbrev Ptr := List Byte

def read8 (p : Ptr) (off : ℕ) : Except Fault Byte :=
  match p.drop off with
  | b :: _ => .ok b
  | _ => .error .readPast

def read16 (p : Ptr) (off : ℕ) : Except Fault (BitVec 16) :=
  match p.drop off with
  | b₀ :: b₁ :: _ => .ok (b₁ ++ b₀)
  | _ => .error .readPast

def read32 (p : Ptr) (off : ℕ) : Except Fault (BitVec 32) :=
  match p.drop off with
  | b₀ :: b₁ :: b₂ :: b₃ :: _ => .ok (b₃ ++ b₂ ++ b₁ ++ b₀)
  | _ => .error .readPast

def read64 (p : Ptr) (off : ℕ) : Except Fault (BitVec 64) :=
  match p.drop off with
  | b₀ :: b₁ :: b₂ :: b₃ :: b₄ :: b₅ :: b₆ :: b₇ :: _ =>
    .ok (b₇ ++ b₆ ++ b₅ ++ b₄ ++ b₃ ++ b₂ ++ b₁ ++ b₀)
  | _ => .error .readPast

/-- The bytes of the C string at a pointer, its NUL not among them. -/
def cstr (p : Ptr) : Except Fault (List Byte) :=
  if 0#8 ∈ p then .ok (p.takeWhile (· ≠ 0#8)) else .error .readPast

section Read

variable {p : Ptr} {off : ℕ}

theorem read8_ok (h : off < p.length) : read8 p off = .ok p[off] := by
  simp only [read8, List.drop_eq_getElem_cons h]

theorem inBounds_read8 : InBounds (read8 p off) ↔ off < p.length := by
  refine ⟨fun h => ?_, fun h => ?_⟩
  · by_contra hlt
    rw [read8, List.drop_eq_nil_of_le (by omega)] at h
    exact h .readPast rfl trivial
  · rw [read8_ok h]
    exact inBounds_ok _

theorem read16_ok (h : off + 1 < p.length) : read16 p off = .ok (p[off + 1] ++ p[off]) := by
  simp only [read16, List.drop_eq_getElem_cons (show off < p.length by omega),
    List.drop_eq_getElem_cons h]

theorem inBounds_read16 : InBounds (read16 p off) ↔ off + 1 < p.length := by
  refine ⟨fun h => ?_, fun h => ?_⟩
  · by_contra hlt
    have hlen : (p.drop off).length < 2 := by
      rw [List.length_drop]
      omega
    refine h .readPast ?_ trivial
    rw [read16]
    generalize p.drop off = q at hlen ⊢
    rcases q with _ | ⟨b₀, _ | ⟨b₁, l⟩⟩
    · rfl
    · rfl
    · simp only [List.length_cons] at hlen
      omega
  · rw [read16_ok h]
    exact inBounds_ok _

theorem read32_ok (h : off + 3 < p.length) :
    read32 p off = .ok (p[off + 3] ++ p[off + 2] ++ p[off + 1] ++ p[off]) := by
  simp only [read32, List.drop_eq_getElem_cons (show off < p.length by omega),
    List.drop_eq_getElem_cons (show off + 1 < p.length by omega),
    List.drop_eq_getElem_cons (show off + 1 + 1 < p.length by omega),
    List.drop_eq_getElem_cons (show off + 1 + 1 + 1 < p.length by omega)]

theorem inBounds_read32 : InBounds (read32 p off) ↔ off + 3 < p.length := by
  refine ⟨fun h => ?_, fun h => ?_⟩
  · by_contra hlt
    have hlen : (p.drop off).length < 4 := by
      rw [List.length_drop]
      omega
    refine h .readPast ?_ trivial
    rw [read32]
    generalize p.drop off = q at hlen ⊢
    rcases q with _ | ⟨b₀, _ | ⟨b₁, _ | ⟨b₂, _ | ⟨b₃, l⟩⟩⟩⟩
    · rfl
    · rfl
    · rfl
    · rfl
    · simp only [List.length_cons] at hlen
      omega
  · rw [read32_ok h]
    exact inBounds_ok _

theorem inBounds_cstr : InBounds (cstr p) ↔ 0#8 ∈ p := by
  unfold cstr
  split_ifs with h
  · simp [h]
  · simp [h, Fault.OutOfBounds]

theorem confined_read8 (p : Ptr) (off : ℕ) : Confined (read8 p off) := by
  unfold read8
  split
  · exact confined_ok _
  · rintro _ ⟨⟩
    trivial

theorem confined_read16 (p : Ptr) (off : ℕ) : Confined (read16 p off) := by
  unfold read16
  split
  · exact confined_ok _
  · rintro _ ⟨⟩
    trivial

theorem confined_read32 (p : Ptr) (off : ℕ) : Confined (read32 p off) := by
  unfold read32
  split
  · exact confined_ok _
  · rintro _ ⟨⟩
    trivial

theorem confined_cstr (p : Ptr) : Confined (cstr p) := by
  unfold cstr
  split_ifs
  · exact confined_ok _
  · rintro _ ⟨⟩
    trivial

/-- What lies behind what is read does not matter. -/
theorem read8_append {r : List Byte} (h : off < p.length) : read8 (p ++ r) off = read8 p off := by
  rw [read8_ok h, read8_ok (by simp; omega), List.getElem_append_left h]

theorem read16_append {r : List Byte} (h : off + 1 < p.length) :
    read16 (p ++ r) off = read16 p off := by
  rw [read16_ok h, read16_ok (by simp; omega), List.getElem_append_left h,
    List.getElem_append_left]

theorem read32_append {r : List Byte} (h : off + 3 < p.length) :
    read32 (p ++ r) off = read32 p off := by
  rw [read32_ok h, read32_ok (by simp; omega), List.getElem_append_left h,
    List.getElem_append_left, List.getElem_append_left, List.getElem_append_left]

/-- A word is read back where its bytes were laid. -/
theorem read16_at (l r : List Byte) (x : BitVec 16) :
    read16 (l ++ (le16 x ++ r)) l.length = .ok x := by
  rw [read16, List.drop_left' rfl]
  simp only [le16, List.cons_append, word16_bytes]

theorem read32_at (l r : List Byte) (x : BitVec 32) :
    read32 (l ++ (le32 x ++ r)) l.length = .ok x := by
  rw [read32, List.drop_left' rfl]
  simp only [le32, List.cons_append, word32_bytes]

/-- A NUL-free text followed by its NUL is the C string that is read back. -/
theorem cstr_of_noNul {t : List Byte} (ht : 0#8 ∉ t) (r : List Byte) :
    cstr (t ++ 0#8 :: r) = .ok t := by
  rw [cstr, if_pos (by simp)]
  congr 1
  induction t with
  | nil => simp
  | cons b t ih =>
    rw [List.mem_cons, not_or] at ht
    rw [List.cons_append, List.takeWhile_cons_of_pos (by simpa using Ne.symm ht.1), ih ht.2]

theorem noNul_of_cstr {t : List Byte} (h : cstr p = .ok t) : 0#8 ∉ t := by
  unfold cstr at h
  split_ifs at h
  cases h
  intro h0
  simpa using List.mem_takeWhile_imp h0

end Read

/-! ## Writing a fixed buffer -/

/-- A zero-filled buffer of `cap` bytes, written from its start up to a cursor. -/
structure Cursor (cap : ℕ) where
  out : List Byte
  fits : out.length ≤ cap

namespace Cursor

variable {cap : ℕ}

def start : Cursor cap := ⟨[], by simp⟩

def put (c : Cursor cap) (bs : List Byte) : Except Fault (Cursor cap) :=
  if h : (c.out ++ bs).length ≤ cap then .ok ⟨c.out ++ bs, h⟩ else .error .writePast

def take (c : Cursor cap) (n : ℕ) : Except Fault (List Byte) :=
  if n ≤ cap then .ok ((c.out ++ List.replicate (cap - c.out.length) 0#8).take n)
  else .error .readPast

theorem put_eq_ok {c c' : Cursor cap} {bs : List Byte} (h : c.put bs = .ok c') :
    c'.out = c.out ++ bs := by
  unfold put at h
  split_ifs at h
  cases h
  rfl

theorem take_eq_ok {c : Cursor cap} {n : ℕ} {bs : List Byte} (h : c.take n = .ok bs) :
    bs = (c.out ++ List.replicate (cap - c.out.length) 0#8).take n := by
  unfold take at h
  split_ifs at h
  cases h
  rfl

theorem confined_put (c : Cursor cap) (bs : List Byte) : Confined (c.put bs) := by
  unfold put
  split_ifs
  · exact confined_ok _
  · rintro _ ⟨⟩
    trivial

theorem confined_take (c : Cursor cap) (n : ℕ) : Confined (c.take n) := by
  unfold take
  split_ifs
  · exact confined_ok _
  · rintro _ ⟨⟩
    trivial

theorem put_ok (c : Cursor cap) {bs : List Byte} (h : (c.out ++ bs).length ≤ cap) :
    c.put bs = .ok ⟨c.out ++ bs, h⟩ := by
  simp only [put, h, ↓reduceDIte]

theorem inBounds_put (c : Cursor cap) (bs : List Byte) :
    InBounds (c.put bs) ↔ c.out.length + bs.length ≤ cap := by
  rw [← List.length_append]
  unfold put
  split_ifs with h
  · exact iff_of_true (inBounds_ok _) h
  · exact iff_of_false (fun hb => hb _ rfl trivial) h

theorem take_ok (c : Cursor cap) {n : ℕ} (hn : n ≤ c.out.length) :
    c.take n = .ok (c.out.take n) := by
  have := c.fits
  rw [take, if_pos (by omega), List.take_append_of_le_length hn]

/-- Two writes are one. -/
theorem put_put {β : Type} (c : Cursor cap) (as bs : List Byte) (f : Cursor cap → Except Fault β) :
    (do
      let c ← c.put as
      let c ← c.put bs
      f c) = c.put (as ++ bs) >>= f := by
  by_cases h : (c.out ++ (as ++ bs)).length ≤ cap
  · have hbs : (c.out ++ as ++ bs).length ≤ cap := by rwa [List.append_assoc]
    have has : (c.out ++ as).length ≤ cap := by
      rw [List.length_append] at hbs
      omega
    rw [put_ok c has, ok_bind, put_ok ⟨c.out ++ as, has⟩ hbs, ok_bind, put_ok c h, ok_bind]
    simp only [List.append_assoc]
  · have hput : c.put (as ++ bs) = .error .writePast := dif_neg h
    rw [hput]
    unfold put
    split_ifs with has
    · have hbs : ¬ (c.out ++ as ++ bs).length ≤ cap := by rwa [List.append_assoc]
      rw [ok_bind, dif_neg hbs]
    · rfl

/-- The byte behind what was written is a NUL. -/
theorem put_take_succ {bs : List Byte} (h : bs.length < cap) :
    ((start : Cursor cap).put bs >>= fun c => c.take (c.out.length + 1)) = .ok (bs ++ [0#8]) := by
  have hput : (start : Cursor cap).put bs = .ok ⟨bs, h.le⟩ := put_ok _ h.le
  have hnul : List.replicate (cap - bs.length) 0#8 =
      0#8 :: List.replicate (cap - bs.length - 1) 0#8 := by
    rw [← List.replicate_succ, Nat.sub_add_cancel (Nat.sub_pos_of_lt h)]
  rw [hput, ok_bind, take, if_pos (Nat.succ_le_of_lt h)]
  simp only [hnul]
  rw [List.take_length_add_append, List.take_succ_cons, List.take_zero]

end Cursor

end CMemory
