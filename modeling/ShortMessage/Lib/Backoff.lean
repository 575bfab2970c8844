import Mathlib.Data.Int.Cast.Basic
import Mathlib.Tactic.Common

/-!
# Retries with linear backoff

`times` are the times of the attempts so far, the earliest first. The next one is due `delay` after
the start, and after `k` attempts `k * interval` after the last; there are at most `limit`.
-/

namespace Backoff

def nextTime (start delay interval : ℤ) (times : List ℤ) : ℤ :=
  match times.getLast? with
  | none => start + delay
  | some last => last + times.length * interval

/-- No more attempts than the limit, none of them early. -/
structure BacksOff (limit start delay interval : ℤ) (times : List ℤ) : Prop where
  bounded : times.length ≤ limit.toNat
  first : ∀ x, times.head? = some x → start + delay ≤ x
  gaps : ∀ (k : ℕ) a b, times[k]? = some a → times[k + 1]? = some b → (k + 1) * interval ≤ b - a

variable {limit start delay interval now : ℤ} {times : List ℤ}

@[simp] theorem nextTime_concat : nextTime start delay interval (times ++ [now]) =
    now + (times.length + 1) * interval := by
  simp [nextTime]

theorem backsOff_nil : BacksOff limit start delay interval [] :=
  ⟨Nat.zero_le _, by simp, by simp⟩

/-- An attempt that is due, and is not one too many, is in time. -/
theorem BacksOff.concat (h : BacksOff limit start delay interval times)
    (hlimit : (times.length : ℤ) < limit) (hnow : nextTime start delay interval times ≤ now) :
    BacksOff limit start delay interval (times ++ [now]) := by
  refine ⟨?_, ?_, ?_⟩
  · rw [List.length_append, List.length_singleton]
    omega
  · intro x hx
    rcases times with _ | ⟨t, times⟩
    · simp only [List.nil_append, List.head?_cons, Option.some.injEq] at hx
      subst hx
      exact hnow
    · exact h.first x hx
  · intro k a b ha hb
    have hk : k + 1 < (times ++ [now]).length := (List.getElem?_eq_some_iff.1 hb).1
    rw [List.length_append, List.length_singleton] at hk
    rw [List.getElem?_append_left (by omega)] at ha
    by_cases hlast : k + 1 < times.length
    · rw [List.getElem?_append_left hlast] at hb
      exact h.gaps k a b ha hb
    · -- the new attempt after the last one
      have hlen : times.length = k + 1 := by omega
      have hget : times.getLast? = some a := by
        rw [List.getLast?_eq_getElem?, hlen]
        exact ha
      have hb : b = now := by simpa [← hlen] using hb.symm
      rw [nextTime, hget, hlen] at hnow
      push_cast at hnow
      rw [hb]
      omega

end Backoff
