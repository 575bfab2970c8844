import Mathlib.Data.List.GetD
import ShortMessage.Lib.CMemory

/-!
# A buffer of bytes

A buffer is a function from positions to bytes together with its capacity, which every access is
checked against. `At buf i bs` says that the buffer holds `bs` from position `i` on; a segment is
kept by the writes that do not meet it.
-/

namespace CMemory

/-- The contents of a buffer, of which only the positions below its capacity exist. -/
abbrev Bytes := ℕ → Byte

namespace Bytes

variable {buf : Bytes} {i j : ℕ} {bs cs : List Byte}

def read (buf : Bytes) (i n : ℕ) : List Byte := (List.range n).map fun k => buf (i + k)

def write (buf : Bytes) (i : ℕ) (bs : List Byte) : Bytes := fun j =>
  if i ≤ j ∧ j < i + bs.length then bs.getD (j - i) 0 else buf j

def At (buf : Bytes) (i : ℕ) (bs : List Byte) : Prop := buf.read i bs.length = bs

theorem length_read (buf : Bytes) (i n : ℕ) : (buf.read i n).length = n := by
  simp [read]

theorem getElem_read {n k : ℕ} (h : k < (buf.read i n).length) :
    (buf.read i n)[k] = buf (i + k) := by
  simp [read]

theorem read_append (buf : Bytes) (i m n : ℕ) :
    buf.read i (m + n) = buf.read i m ++ buf.read (i + m) n := by
  simp [read, List.range_add, Function.comp_def, Nat.add_assoc]

theorem at_nil (buf : Bytes) (i : ℕ) : buf.At i [] := rfl

theorem at_append : buf.At i (bs ++ cs) ↔ buf.At i bs ∧ buf.At (i + bs.length) cs := by
  rw [At, List.length_append, read_append]
  constructor
  · intro h
    exact List.append_inj h (length_read _ _ _)
  · rintro ⟨hb, hc⟩
    rw [hb, hc]

theorem at_write (buf : Bytes) (i : ℕ) (bs : List Byte) : (buf.write i bs).At i bs := by
  refine List.ext_getElem (length_read _ _ _) fun k h1 h2 => ?_
  rw [getElem_read, write, if_pos (by omega), Nat.add_sub_cancel_left, List.getD_eq_getElem _ _ h2]

theorem write_of_outside (buf : Bytes) (h : j < i ∨ i + bs.length ≤ j) :
    buf.write i bs j = buf j := by
  rw [write, if_neg (by omega)]

/-- A write settles what it writes. -/
theorem write_congr {buf' : Bytes} (h : ∀ j, j < i ∨ i + bs.length ≤ j → buf' j = buf j) :
    buf'.write i bs = buf.write i bs := by
  funext j
  by_cases hj : i ≤ j ∧ j < i + bs.length
  · rw [write, write, if_pos hj, if_pos hj]
  · rw [write_of_outside _ (by omega), write_of_outside _ (by omega), h j (by omega)]

/-- A segment tells each of its bytes. -/
theorem At.getElem? (h : buf.At i bs) {k : ℕ} (hk : k < bs.length) :
    bs[k]? = some (buf (i + k)) := by
  conv_lhs => rw [← h]
  simp [read, hk]

theorem At.congr {buf' : Bytes} (h : buf.At i bs)
    (heq : ∀ j, i ≤ j → j < i + bs.length → buf' j = buf j) : buf'.At i bs := by
  rw [At, ← h, length_read]
  refine List.ext_getElem (by simp only [length_read]) fun k h1 h2 => ?_
  rw [length_read] at h1
  rw [getElem_read, getElem_read, heq _ (by omega) (by omega)]

/-- What is there already can be written again. -/
theorem At.write_self (h : buf.At i bs) : buf.write i bs = buf := by
  funext j
  by_cases hj : i ≤ j ∧ j < i + bs.length
  · have hget := h.getElem? (show j - i < bs.length by omega)
    rw [Nat.add_sub_cancel' hj.1] at hget
    rw [write, if_pos hj, List.getD_eq_getElem?_getD, hget, Option.getD_some]
  · exact write_of_outside buf (by omega)

/-- A segment is kept by a write before or behind it. -/
theorem At.write (h : buf.At j cs) (hd : j + cs.length ≤ i ∨ i + bs.length ≤ j) :
    (buf.write i bs).At j cs :=
  h.congr fun k hk hk' => write_of_outside buf (by omega)

end Bytes

/-! ## Checked access -/

def load (cap : ℕ) (buf : Bytes) (i n : ℕ) : Except Fault (List Byte) :=
  if i + n ≤ cap then .ok (buf.read i n) else .error .readPast

def load16 (cap : ℕ) (buf : Bytes) (i : ℕ) : Except Fault (BitVec 16) :=
  if i + 2 ≤ cap then .ok (buf (i + 1) ++ buf i) else .error .readPast

def store (cap : ℕ) (buf : Bytes) (i : ℕ) (bs : List Byte) : Except Fault Bytes :=
  if i + bs.length ≤ cap then .ok (buf.write i bs) else .error .writePast

section Access

variable {cap i : ℕ} {buf : Bytes} {bs : List Byte}

theorem load_ok (h : buf.At i bs) (hc : i + bs.length ≤ cap) :
    load cap buf i bs.length = .ok bs := by
  rw [load, if_pos hc, h]

theorem load16_ok {x : BitVec 16} (h : buf.At i (le16 x)) (hc : i + 2 ≤ cap) :
    load16 cap buf i = .ok x := by
  have hread : [buf (i + 0), buf (i + 1)] = le16 x := h
  obtain ⟨h0, h1⟩ := List.cons_eq_cons.1 hread
  obtain ⟨h1, -⟩ := List.cons_eq_cons.1 h1
  rw [Nat.add_zero] at h0
  rw [load16, if_pos hc, h0, h1, word16_bytes]

theorem store_ok (buf : Bytes) (hc : i + bs.length ≤ cap) :
    store cap buf i bs = .ok (buf.write i bs) := if_pos hc

end Access

end CMemory
