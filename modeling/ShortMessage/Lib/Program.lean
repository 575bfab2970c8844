import Mathlib.Tactic.Common

/-!
# Programs of operations

A program executes operations one after the other on a state it shares with others, and what it
does next depends on what the last one returned. `Program.alone` executes one with nothing in
between. A `Monitor` follows a program through its operations by a state of its own: `Obeys` says
that no operation is executed in a state of the monitor that does not permit it, whatever the
operations before it returned.
-/

/-- A tree of operations: the branch taken after one is named by its result. -/
inductive Program (Op : Type) (Res : Op → Type) (α : Type)
  | ret (a : α)
  | call (c : Op) (next : Res c → Program Op Res α)

/-- What a program's past permits it to do next. -/
structure Monitor (Op : Type) (Res : Op → Type) where
  State : Type
  pre : State → Op → Prop
  next : State → (c : Op) → Res c → State

namespace Program

variable {Op : Type} {Res : Op → Type} {α β : Type}

def bind : Program Op Res α → (α → Program Op Res β) → Program Op Res β
  | .ret a, k => k a
  | .call c next, k => .call c fun b => (next b).bind k

instance : Monad (Program Op Res) where
  pure := .ret
  bind := bind

/-- The program of one operation. -/
def op (c : Op) : Program Op Res (Res c) := .call c .ret

@[simp] theorem pure_eq (a : α) : (pure a : Program Op Res α) = .ret a := rfl

@[simp] theorem ret_bind (a : α) (k : α → Program Op Res β) : (ret a >>= k) = k a := rfl

@[simp] theorem call_bind (c : Op) (next : Res c → Program Op Res α)
    (k : α → Program Op Res β) : (call c next >>= k) = .call c fun b => next b >>= k := rfl

@[simp] theorem op_bind (c : Op) (k : Res c → Program Op Res β) : (op c >>= k) = .call c k := rfl

theorem bind_assoc {γ : Type} (p : Program Op Res α) (k : α → Program Op Res β)
    (l : β → Program Op Res γ) : p >>= k >>= l = p >>= fun a => k a >>= l := by
  induction p with
  | ret a => rfl
  | call c next ih =>
    rw [call_bind, call_bind, call_bind]
    exact congrArg _ (funext ih)

/-! ## One program alone -/

section Alone

variable {σ ι ε : Type} (handle : ι → σ → (c : Op) → Except ε (σ × Res c)) (after : Op → ι → ι)

/-- `handle i s c` executes operation `c` on `s` given the input `i`, and `after c i` is the input
that is left for the operations that follow. -/
def alone : Program Op Res α → ι → σ → Except ε (α × ι × σ)
  | .ret a, i, s => .ok (a, i, s)
  | .call c next, i, s =>
    match handle i s c with
    | .ok (s', b) => (next b).alone (after c i) s'
    | .error e => .error e

variable {handle after} {i : ι} {s s' : σ}

@[simp] theorem alone_ret (a : α) :
    (ret a : Program Op Res α).alone handle after i s = .ok (a, i, s) := rfl

theorem alone_call {c : Op} {b : Res c} {next : Res c → Program Op Res α}
    (h : handle i s c = .ok (s', b)) :
    (call c next).alone handle after i s = (next b).alone handle after (after c i) s' := by
  simp only [alone, h]

theorem alone_call_error {c : Op} {e : ε} {next : Res c → Program Op Res α}
    (h : handle i s c = .error e) : (call c next).alone handle after i s = .error e := by
  simp only [alone, h]

theorem alone_bind {p : Program Op Res α} {k : α → Program Op Res β} :
    (p >>= k).alone handle after i s =
      match p.alone handle after i s with
      | .ok (a, i', s') => (k a).alone handle after i' s'
      | .error e => .error e := by
  induction p generalizing i s with
  | ret a => rfl
  | call c next ih =>
    rw [call_bind]
    rcases h : handle i s c with e | ⟨s', b⟩
    · rw [alone_call_error h, alone_call_error h]
    · rw [alone_call h, alone_call h, ih]

end Alone

/-! ## Monitors -/

section Monitor

variable {m : Monitor Op Res} {post post' : α → m.State → Prop}

/-- From state `q` of the monitor on, every operation is permitted, and `post` holds at the end. -/
def Obeys (m : Monitor Op Res) (post : α → m.State → Prop) : Program Op Res α → m.State → Prop
  | .ret a, q => post a q
  | .call c next, q => m.pre q c ∧ ∀ b, (next b).Obeys m post (m.next q c b)

theorem obeys_op_bind {c : Op} {k : Res c → Program Op Res α} {q : m.State} :
    (op c >>= k).Obeys m post q ↔ m.pre q c ∧ ∀ b, (k b).Obeys m post (m.next q c b) := .rfl

theorem Obeys.mono {p : Program Op Res α} {q : m.State} (hp : ∀ a q, post a q → post' a q)
    (h : p.Obeys m post q) : p.Obeys m post' q := by
  induction p generalizing q with
  | ret a => exact hp a q h
  | call c next ih => exact ⟨h.1, fun b => ih b (h.2 b)⟩

theorem Obeys.bind {p : Program Op Res α} {k : α → Program Op Res β} {q : m.State}
    {post' : β → m.State → Prop} (h : p.Obeys m post q)
    (hk : ∀ a q, post a q → (k a).Obeys m post' q) : (p >>= k).Obeys m post' q := by
  induction p generalizing q with
  | ret a => exact hk a q h
  | call c next ih => exact ⟨h.1, fun b => ih b (h.2 b)⟩

end Monitor

end Program
