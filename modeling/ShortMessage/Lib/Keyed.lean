import Mathlib.Data.List.Nodup
import Mathlib.Tactic.Common

/-!
# Tables whose rows have distinct keys

`l` is a table, `f` the key of a row. A row is found by its key, and updating one after the other
the rows that some of the table's rows name updates just those rows, each by itself.
-/

namespace Keyed

variable {α κ : Type*} [DecidableEq κ] {f : α → κ} {l rows : List α} {a : α}

theorem filter_eq_singleton (h : (l.map f).Nodup) (ha : a ∈ l) :
    l.filter (f · = f a) = [a] := by
  induction l with
  | nil => cases ha
  | cons b l ih =>
    rw [List.map_cons, List.nodup_cons, List.mem_map, not_exists] at h
    obtain ⟨hb, hl⟩ := h
    rcases List.mem_cons.1 ha with rfl | ha
    · rw [List.filter_cons_of_pos (by simp), List.filter_eq_nil_iff.2]
      intro c hc hca
      exact hb c ⟨hc, by simpa using hca⟩
    · have hne : f b ≠ f a := fun hba => hb a ⟨ha, hba.symm⟩
      rw [List.filter_cons_of_neg (by simpa using hne), ih hl ha]

theorem find?_eq_some (h : (l.map f).Nodup) (ha : a ∈ l) : l.find? (f · = f a) = some a := by
  rw [← List.head?_filter, filter_eq_singleton h ha, List.head?_cons]

/-- Update by `g` the rows with the key of `r`. -/
def update (f : α → κ) (g : α → α) (r : α) (l : List α) : List α :=
  l.map fun x => if f x = f r then g x else x

/-- Updates that are named by distinct keys do not meet. -/
theorem foldl_update (g : α → α → α) (hg : ∀ r x, f (g r x) = f x) :
    ∀ (rows : List α), (rows.map f).Nodup → ∀ l : List α,
      rows.foldl (fun l r => update f (g r) r l) l =
        l.map fun x => ((rows.find? (f · = f x)).map (g · x)).getD x
  | [], _, l => by simp
  | r :: rows, h, l => by
    rw [List.map_cons, List.nodup_cons, List.mem_map, not_exists] at h
    obtain ⟨hr, hrows⟩ := h
    rw [List.foldl_cons, foldl_update g hg rows hrows, update, List.map_map]
    refine List.map_congr_left fun x _ => ?_
    rw [Function.comp_apply]
    by_cases hx : f x = f r
    · have hnone : rows.find? (f · = f (g r x)) = none := by
        rw [List.find?_eq_none]
        intro c hc hcx
        rw [hg, hx] at hcx
        exact hr c ⟨hc, by simpa using hcx⟩
      rw [if_pos hx, hnone, List.find?_cons_of_pos (by simpa using hx.symm)]
      rfl
    · rw [if_neg hx, List.find?_cons_of_neg (by simpa using Ne.symm hx)]

/-- Each of the table's rows that is named is updated by itself. -/
theorem foldl_update_self [DecidableEq α] (g : α → α → α) (hg : ∀ r x, f (g r x) = f x)
    (hl : (l.map f).Nodup) (hnd : (rows.map f).Nodup) (hsub : ∀ r ∈ rows, r ∈ l) :
    rows.foldl (fun l r => update f (g r) r l) l =
      l.map fun x => if x ∈ rows then g x x else x := by
  rw [foldl_update g hg rows hnd]
  refine List.map_congr_left fun x hx => ?_
  split_ifs with hmem
  · rw [find?_eq_some hnd hmem]
    rfl
  · have hnone : rows.find? (f · = f x) = none := by
      rw [List.find?_eq_none]
      intro c hc hcx
      have : c = x := List.inj_on_of_nodup_map hl (hsub c hc) hx (by simpa using hcx)
      exact hmem (this ▸ hc)
    rw [hnone]
    rfl

end Keyed
