import Mathlib.Data.List.Basic
import Mathlib.Tactic.Common

/-!
# Runs of a step function

`step s l` takes label `l` from state `s`: it returns the next state and what was observed, or does
not return. A run's history lists its labels and observations, the earliest first; `P` is what
every step of the run meets in the state it starts from.
-/

namespace Run

variable {σ ℓ ω ε : Type*}

/-- The runs of `step` from `s₀` whose every step meets `P`, by their history and last state. -/
inductive Reaches (step : σ → ℓ → Except ε (σ × ω)) (P : σ → ℓ → Prop) (s₀ : σ) :
    List (ℓ × ω) → σ → Prop
  | start : Reaches step P s₀ [] s₀
  | next {h s l s' o} : Reaches step P s₀ h s → P s l → step s l = .ok (s', o) →
      Reaches step P s₀ (h ++ [(l, o)]) s'

namespace Reaches

variable {step : σ → ℓ → Except ε (σ × ω)} {P Q : σ → ℓ → Prop} {s₀ s : σ} {h : List (ℓ × ω)}

/-- What holds at the start and is kept by each step of the run holds at its end. -/
theorem invariant {I : List (ℓ × ω) → σ → Prop} (start : I [] s₀)
    (next : ∀ h s l s' o, I h s → P s l → step s l = .ok (s', o) → I (h ++ [(l, o)]) s')
    (hr : Reaches step P s₀ h s) : I h s := by
  induction hr with
  | start => exact start
  | next _ hP hs ih => exact next _ _ _ _ _ ih hP hs

theorem mono (hPQ : ∀ s l, P s l → Q s l) (hr : Reaches step P s₀ h s) :
    Reaches step Q s₀ h s := by
  induction hr with
  | start => exact .start
  | next _ hP hs ih => exact ih.next (hPQ _ _ hP) hs

/-- A step function that takes the steps of another one, their labels renamed. -/
theorem map {ℓ' ε' : Type*} {step' : σ → ℓ' → Except ε' (σ × ω)} {P' : σ → ℓ' → Prop} (f : ℓ → ℓ')
    (hstep : ∀ s l s' o, step s l = .ok (s', o) → step' s (f l) = .ok (s', o))
    (hP : ∀ s l, P s l → P' s (f l)) (hr : Reaches step P s₀ h s) :
    Reaches step' P' s₀ (h.map fun e => (f e.1, e.2)) s := by
  induction hr with
  | start => exact .start
  | next _ hl hs ih =>
    rw [List.map_append, List.map_singleton]
    exact ih.next (hP _ _ hl) (hstep _ _ _ _ hs)

/-- A run that begins with history `h₁` passes through a state where its history is `h₁`. -/
theorem split {h₁ h₂ : List (ℓ × ω)} (hr : Reaches step P s₀ (h₁ ++ h₂) s) :
    ∃ s₁, Reaches step P s₀ h₁ s₁ ∧ Reaches step P s₁ h₂ s := by
  generalize hh : h₁ ++ h₂ = h at hr
  induction hr generalizing h₂ with
  | start =>
    obtain ⟨rfl, rfl⟩ := List.append_eq_nil_iff.1 hh
    exact ⟨_, .start, .start⟩
  | next hr' hP hs ih =>
    rcases List.eq_nil_or_concat h₂ with rfl | ⟨h₂, e, rfl⟩
    · rw [List.append_nil] at hh
      subst hh
      exact ⟨_, hr'.next hP hs, .start⟩
    · rw [List.concat_eq_append, ← List.append_assoc] at hh
      rw [List.concat_eq_append]
      obtain ⟨rfl, he⟩ := List.append_inj' hh rfl
      obtain ⟨s₁, h1, h2⟩ := ih rfl
      cases he
      exact ⟨s₁, h1, h2.next hP hs⟩

theorem eq_of_nil (hr : Reaches step P s₀ [] s) : s = s₀ := by
  generalize hh : [] = h at hr
  cases hr with
  | start => rfl
  | next => simp at hh

/-- The first step of a run, and the run that follows it. -/
theorem head {l : ℓ} {o : ω} (hr : Reaches step P s₀ ((l, o) :: h) s) :
    ∃ s₁, P s₀ l ∧ step s₀ l = .ok (s₁, o) ∧ Reaches step P s₁ h s := by
  have hr' : Reaches step P s₀ ([(l, o)] ++ h) s := hr
  obtain ⟨s₁, h1, h2⟩ := hr'.split
  generalize hh : [(l, o)] = h' at h1
  cases h1 with
  | start => simp at hh
  | @next h' _ _ _ _ hr' hP hs =>
    obtain ⟨rfl, he⟩ := List.append_inj' (show [] ++ [(l, o)] = h' ++ [_] from hh) rfl
    cases he
    rw [hr'.eq_of_nil] at hP hs
    exact ⟨s₁, hP, hs, h2⟩

/-- The state a run ends in is told by its history. -/
theorem unique {s' : σ} (hr : Reaches step P s₀ h s) (hr' : Reaches step P s₀ h s') : s = s' := by
  induction hr generalizing s' with
  | start => exact hr'.eq_of_nil.symm
  | @next h s₁ l s₂ o _ _ hs ih =>
    obtain ⟨s₁', h1, h2⟩ := hr'.split
    obtain ⟨s₂', -, hs', h3⟩ := h2.head
    rw [← ih h1, hs, Except.ok.injEq, Prod.mk.injEq] at hs'
    rw [hs'.1, h3.eq_of_nil]

end Reaches

/-- An entry of a history that grew by one is an old one or the new one. -/
theorem getElem?_concat {α : Type*} {h : List α} {e e' : α} {n : ℕ} :
    (h ++ [e])[n]? = some e' ↔ h[n]? = some e' ∨ n = h.length ∧ e = e' := by
  rcases Nat.lt_trichotomy n h.length with hlt | rfl | hgt
  · rw [List.getElem?_append_left hlt, or_iff_left]
    rintro ⟨hn, -⟩
    omega
  · simp
  · rw [List.getElem?_eq_none (by simp; omega), List.getElem?_eq_none (by omega)]
    simp only [reduceCtorEq, false_or, false_iff, not_and]
    omega

end Run
