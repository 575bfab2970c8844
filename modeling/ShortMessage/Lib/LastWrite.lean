import ShortMessage.Lib.Run

/-!
# Last writes

Writes to keyed cells, the earliest first. Carried out one after the other they leave in each cell
the last value written to it, or what was there before; so does a run whose steps write.
-/

namespace LastWrite

variable {κ ν : Type*} [DecidableEq κ] {ws ws' : List (κ × ν)} {k : κ} {v : ν}

/-- The last value written to `k`. -/
def last (ws : List (κ × ν)) (k : κ) : Option ν := (ws.filter (·.1 = k)).getLast?.map (·.2)

@[simp] theorem last_nil (k : κ) : last ([] : List (κ × ν)) k = none := rfl

theorem last_append (ws ws' : List (κ × ν)) (k : κ) :
    last (ws ++ ws') k = (last ws' k).or (last ws k) := by
  rw [last, List.filter_append, List.getLast?_append, Option.map_or]
  rfl

theorem last_singleton (k k' : κ) (v : ν) : last [(k', v)] k = if k' = k then some v else none := by
  unfold last
  by_cases h : k' = k
  · rw [List.filter_cons_of_pos (by simpa using h), if_pos h]
    rfl
  · rw [List.filter_cons_of_neg (by simpa using h), if_neg h]
    rfl

theorem last_cons (k' : κ) (v : ν) (ws : List (κ × ν)) (k : κ) :
    last ((k', v) :: ws) k = (last ws k).or (if k' = k then some v else none) := by
  rw [← last_singleton, ← last_append, List.singleton_append]

/-- Writes that do not meet the cell leave it alone. -/
theorem last_eq_none (h : ∀ w ∈ ws, w.1 ≠ k) : last ws k = none := by
  rw [last, List.filter_eq_nil_iff.2 (by simpa using h)]
  rfl

/-- What a fold leaves in the cell `k`, when each of its steps carries out its writes. -/
theorem foldl_read {α β γ : Type*} {f : ν → γ} (effect : α → β → α) (read : α → γ)
    (writes : β → List (κ × ν)) (next : ∀ a b, read (effect a b) =
      ((last (writes b) k).map f).getD (read a)) (bs : List β) (a : α) :
    read (bs.foldl effect a) = ((last (bs.flatMap writes) k).map f).getD (read a) := by
  induction bs generalizing a with
  | nil => rfl
  | cons b bs ih =>
    rw [List.foldl_cons, ih, next, List.flatMap_cons, last_append]
    rcases last (bs.flatMap writes) k with _ | v
    · rfl
    · rfl

/-- What a run leaves in the cell `k`, when each of its steps carries out its writes. A value `v`
written is read as `f v`. -/
theorem reaches_read {σ ℓ ω ε α : Type*} {step : σ → ℓ → Except ε (σ × ω)} {P : σ → ℓ → Prop}
    {I : σ → Prop} {s₀ s : σ} {h : List (ℓ × ω)} {f : ν → α} (read : σ → α)
    (writes : ℓ → List (κ × ν)) (start : I s₀) (next : ∀ s l s' o, I s → P s l →
      step s l = .ok (s', o) → I s' ∧ read s' = ((last (writes l) k).map f).getD (read s))
    (hr : Run.Reaches step P s₀ h s) :
    I s ∧ read s = ((last (h.flatMap fun e => writes e.1) k).map f).getD (read s₀) := by
  refine hr.invariant (I := fun h s => I s ∧
    read s = ((last (h.flatMap fun e => writes e.1) k).map f).getD (read s₀)) ⟨start, rfl⟩ ?_
  rintro h s l s' o ⟨hI, hread⟩ hP hs
  obtain ⟨hI', hread'⟩ := next s l s' o hI hP hs
  refine ⟨hI', ?_⟩
  rw [hread', hread, List.flatMap_append, List.flatMap_singleton, last_append]
  rcases last (writes l) k with _ | v
  · rfl
  · rfl

end LastWrite
