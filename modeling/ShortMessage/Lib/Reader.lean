import Mathlib.Data.List.Basic
import Mathlib.Tactic.Common

/-!
# Readers of a stream

A reader takes what it reads off the front of a stream and fails with `none`. `Reads r l a` says
that `r`, where the stream begins with `l`, takes exactly `l` and returns `a`; it holds of a reader
made of others when it holds of each on its own part of `l`.
-/

/-- A computation that takes what it reads off the front of a list. -/
abbrev Reader.{u} (τ α : Type u) := StateT (List τ) Option α

namespace Reader

universe u

variable {τ α β : Type u} {r : Reader τ α} {f : α → Reader τ β} {l l₁ l₂ : List τ} {a : α} {b : β}

/-- `r` reads `a` off any stream that begins with `l`, and leaves what follows. -/
def Reads (r : Reader τ α) (l : List τ) (a : α) : Prop :=
  ∀ rest, r.run (l ++ rest) = some (a, rest)

/-- One item. -/
def next : Reader τ τ := fun l =>
  match l with
  | [] => none
  | x :: rest => some (x, rest)

/-- The next `n` items. -/
def take (n : ℕ) : Reader τ (List τ) := fun l =>
  if n ≤ l.length then some (l.take n, l.drop n) else none

theorem reads_pure (a : α) : Reads (pure a : Reader τ α) [] a := fun _ => rfl

theorem Reads.bind (hr : Reads r l₁ a) (hf : Reads (f a) l₂ b) :
    Reads (r >>= f) (l₁ ++ l₂) b := by
  intro rest
  rw [StateT.run_bind, List.append_assoc, hr]
  exact hf rest

/-- A step that takes nothing. -/
theorem Reads.bind_nil (hr : Reads r [] a) (hf : Reads (f a) l b) : Reads (r >>= f) l b :=
  hr.bind hf

/-- What follows takes nothing. -/
theorem Reads.bind_nil_right (hr : Reads r l a) (hf : Reads (f a) [] b) : Reads (r >>= f) l b := by
  have h := hr.bind hf
  rwa [List.append_nil] at h

theorem Reads.bind_pure {g : α → β} (hr : Reads r l a) :
    Reads (r >>= fun a => pure (g a)) l (g a) :=
  hr.bind_nil_right (reads_pure (g a))

theorem Reads.of_eq (hr : Reads r l₁ a) (hl : l₁ = l₂) : Reads r l₂ a := hl ▸ hr

theorem reads_next (x : τ) : Reads next [x] x := fun _ => rfl

theorem reads_take (l : List τ) : Reads (take l.length) l l := by
  intro rest
  show (if l.length ≤ (l ++ rest).length then _ else _) = _
  rw [if_pos (by simp), List.take_left, List.drop_left]

/-- What is left of the stream. -/
theorem run_get_bind (f : List τ → Reader τ β) (l : List τ) :
    (get >>= f).run l = (f l).run l := rfl

end Reader
