import ShortMessage.Lib.Buffer

/-!
# A ring of slots

A buffer cut into `count` slots of `size` bytes, filled one behind the other and again from the
first. `Laid` says that the blocks lie in the slots from the one numbered `first` on; `first` may be
`count`, the end of the last slot, where the next block is in the first.
-/

namespace CMemory

namespace SlotRing

open Bytes

variable {buf buf' : Bytes} {size count first n x y : ℕ} {b : List Byte} {blocks : List (List Byte)}

/-- The slot that is reached `x` slots from the first. -/
def wrap (count x : ℕ) : ℕ :=
  if x < count then x else if x < 2 * count then x - count else x - 2 * count

def Laid (buf : Bytes) (size count first : ℕ) (blocks : List (List Byte)) : Prop :=
  ∀ t b, blocks[t]? = some b → b.length = size ∧ buf.At (wrap count (first + t) * size) b

/-! ## Slots -/

theorem slot_le (h : x < y) (size : ℕ) : x * size + size ≤ y * size := by
  rw [← Nat.succ_mul]
  exact Nat.mul_le_mul_right size h

theorem slot_disjoint (h : x ≠ y) (size : ℕ) :
    x * size + size ≤ y * size ∨ y * size + size ≤ x * size :=
  (Nat.lt_or_gt_of_ne h).imp (slot_le · size) (slot_le · size)

theorem wrap_of_lt (h : x < count) : wrap count x = x := if_pos h

theorem wrap_of_ge (h : count ≤ x) (h' : x < 2 * count) : wrap count x = x - count := by
  rw [wrap, if_neg (not_lt.2 h), if_pos h']

@[simp] theorem wrap_self (count : ℕ) : wrap count count = 0 := by
  unfold wrap
  split_ifs <;> omega

theorem wrap_add_one (h : x < 2 * count) :
    wrap count (x + 1) = if wrap count x + 1 < count then wrap count x + 1 else 0 := by
  unfold wrap
  split_ifs <;> omega

theorem wrap_lt (h0 : 0 < count) (hx : x ≤ 2 * count) : wrap count x < count := by
  unfold wrap
  split_ifs <;> omega

theorem wrap_ne (hx : first ≤ count) (hxy : x < y) (hy : y < count) :
    wrap count (first + x) ≠ wrap count (first + y) := by
  unfold wrap
  split_ifs <;> omega

/-! ## Blocks -/

theorem laid_nil (buf : Bytes) (size count first : ℕ) : Laid buf size count first [] := by
  intro t b h
  simp at h

theorem Laid.head (h : Laid buf size count first (b :: blocks)) :
    b.length = size ∧ buf.At (wrap count first * size) b := h 0 b rfl

theorem Laid.tail (h : Laid buf size count first (b :: blocks)) :
    Laid buf size count (first + 1) blocks := by
  intro t c hc
  have := h (t + 1) c hc
  rwa [Nat.add_right_comm, Nat.add_assoc]

/-- From the end of the last slot the blocks go on in the first. -/
theorem Laid.turn (h : Laid buf size count count blocks) (hn : blocks.length ≤ count) :
    Laid buf size count 0 blocks := by
  intro t b hb
  have ht : t < blocks.length := List.getElem?_eq_some_iff.1 hb |>.1
  obtain ⟨hlen, hat⟩ := h t b hb
  rw [wrap_of_ge (by omega) (by omega), Nat.add_sub_cancel_left] at hat
  refine ⟨hlen, ?_⟩
  rwa [Nat.zero_add, wrap_of_lt (by omega)]

/-- The blocks stay where they are as long as only the next free slot is written, and what lies
behind the slots. -/
theorem Laid.free (h : Laid buf size count first blocks) (hh : first ≤ count)
    (hn : blocks.length < count)
    (heq : ∀ j < count * size, j < wrap count (first + blocks.length) * size ∨
      wrap count (first + blocks.length) * size + size ≤ j → buf' j = buf j) :
    Laid buf' size count first blocks := by
  intro t b hb
  have ht : t < blocks.length := List.getElem?_eq_some_iff.1 hb |>.1
  obtain ⟨hlen, hat⟩ := h t b hb
  have hle := slot_le (wrap_lt (show 0 < count by omega) (show first + t ≤ 2 * count by omega)) size
  have hdisjoint := slot_disjoint (wrap_ne hh ht hn) size
  exact ⟨hlen, hat.congr fun j hj hj' => heq j (by omega) (by omega)⟩

/-- A block is laid into the next free slot. -/
theorem Laid.concat (h : Laid buf size count first blocks) (hh : first ≤ count)
    (hn : blocks.length < count) (hb : b.length = size)
    (hat : buf'.At (wrap count (first + blocks.length) * size) b)
    (heq : ∀ j < count * size, j < wrap count (first + blocks.length) * size ∨
      wrap count (first + blocks.length) * size + size ≤ j → buf' j = buf j) :
    Laid buf' size count first (blocks ++ [b]) := by
  intro t c hc
  by_cases ht : t < blocks.length
  · rw [List.getElem?_append_left ht] at hc
    exact h.free hh hn heq t c hc
  · rw [List.getElem?_append_right (by omega), List.getElem?_singleton] at hc
    split_ifs at hc with h0
    cases hc
    obtain rfl : t = blocks.length := by omega
    exact ⟨hb, hat⟩

end SlotRing

end CMemory
