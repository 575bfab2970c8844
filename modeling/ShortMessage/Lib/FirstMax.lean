import Mathlib.Data.List.MinMax
import Mathlib.Data.List.Sort

/-!
# Scanning for a first maximum

A scan that replaces its candidate on each usable element whose key exceeds the candidate's, the
first candidate's key being `floor`, ends with the first maximum of the usable elements above
`floor`: `IsFirstMax` says which one that is.
-/

namespace FirstMax

variable {α β : Type*} [LinearOrder β] (usable : α → Prop) (key : α → β) (floor : β)

/-- `m` is usable and above `floor`, exceeds the usable elements before it and is no less than those
after it. -/
def IsFirstMax (l : List α) (m : α) : Prop :=
  ∃ l₁ l₂, l = l₁ ++ m :: l₂ ∧ (floor < key m ∧ usable m) ∧
    (∀ a ∈ l₁, usable a → key a < key m) ∧ ∀ a ∈ l₂, usable a → key a ≤ key m

section IsFirstMax

variable {usable key floor} {l : List α} {a m : α}

theorem IsFirstMax.le (h : IsFirstMax usable key floor l m) :
    ∀ a ∈ l, usable a → key a ≤ key m := by
  obtain ⟨l₁, l₂, rfl, -, hbefore, hafter⟩ := h
  intro a ha hu
  rcases List.mem_append.1 ha with ha | ha
  · exact (hbefore a ha hu).le
  · rcases List.mem_cons.1 ha with rfl | ha
    · exact le_rfl
    · exact hafter a ha hu

theorem IsFirstMax.mem (h : IsFirstMax usable key floor l m) : m ∈ l := by
  obtain ⟨l₁, l₂, rfl, -⟩ := h
  simp

theorem IsFirstMax.candidate (h : IsFirstMax usable key floor l m) : floor < key m ∧ usable m := by
  obtain ⟨_, _, -, hu, -⟩ := h
  exact hu

theorem isFirstMax_cons : IsFirstMax usable key floor (a :: l) m ↔
    (a = m ∧ (floor < key a ∧ usable a) ∧ ∀ b ∈ l, usable b → key b ≤ key a) ∨
      IsFirstMax usable key floor l m ∧ (usable a → key a < key m) := by
  constructor
  · rintro ⟨_ | ⟨b, l₁⟩, l₂, hl, hu, hbefore, hafter⟩
    · cases hl
      exact .inl ⟨rfl, hu, hafter⟩
    · cases hl
      obtain ⟨ha, hbefore⟩ := List.forall_mem_cons.1 hbefore
      exact .inr ⟨⟨l₁, l₂, rfl, hu, hbefore, hafter⟩, ha⟩
  · rintro (⟨rfl, hu, hafter⟩ | ⟨⟨l₁, l₂, rfl, hu, hbefore, hafter⟩, ha⟩)
    · exact ⟨[], l, rfl, hu, by simp, hafter⟩
    · exact ⟨a :: l₁, l₂, rfl, hu, List.forall_mem_cons.2 ⟨ha, hbefore⟩, hafter⟩

end IsFirstMax

variable [DecidablePred usable]

def scanStep (best : Option α) (a : α) : Option α :=
  if best.elim floor key < key a ∧ usable a then some a else best

/-- What the scan looks at. -/
def candidates (l : List α) : List α := l.filter fun a => floor < key a ∧ usable a

theorem candidates_concat (l : List α) (a : α) :
    candidates usable key floor (l ++ [a]) =
      candidates usable key floor l ++ if floor < key a ∧ usable a then [a] else [] := by
  rw [candidates, List.filter_append, List.filter_cons, List.filter_nil, candidates]
  simp only [decide_eq_true_eq]

theorem foldl_scanStep (l : List α) :
    l.foldl (scanStep usable key floor) none = (candidates usable key floor l).argmax key := by
  induction l using List.reverseRecOn with
  | nil => rfl
  | append_singleton l a ih =>
    rw [List.foldl_append, ih, candidates_concat]
    simp only [List.foldl_cons, List.foldl_nil, scanStep]
    rcases hc : (candidates usable key floor l).argmax key with _ | c
    · rw [List.argmax_eq_none.1 hc]
      by_cases ha : floor < key a ∧ usable a
      · simp [ha]
      · simp [ha]
    · have hfc : floor < key c := by
        have := List.argmax_mem hc
        simp only [candidates, List.mem_filter, decide_eq_true_eq] at this
        exact this.2.1
      by_cases ha : floor < key a ∧ usable a
      · simp only [Option.elim_some, ha, and_self, ↓reduceIte, List.argmax_concat, hc, and_true]
      · have hna : ¬ (key c < key a ∧ usable a) := fun h => ha ⟨hfc.trans h.1, h.2⟩
        simp only [Option.elim_some, hna, ha, ↓reduceIte, List.append_nil, hc]

section Candidates

variable {usable key floor} {l : List α} {a m : α}

theorem candidates_cons_of_pos (ha : floor < key a ∧ usable a) :
    candidates usable key floor (a :: l) = a :: candidates usable key floor l := by
  simp [candidates, ha]

theorem candidates_cons_of_neg (ha : ¬ (floor < key a ∧ usable a)) :
    candidates usable key floor (a :: l) = candidates usable key floor l := by
  simp [candidates, ha]

/-- The scan of a list ends without a candidate when no usable element is above the floor. -/
theorem argmax_candidates_eq_none_iff :
    (candidates usable key floor l).argmax key = none ↔ ∀ a ∈ l, usable a → key a ≤ floor := by
  rw [List.argmax_eq_none, candidates, List.filter_eq_nil_iff]
  refine forall₂_congr fun a _ => ?_
  rw [decide_eq_true_eq, not_and', not_lt]

/-- Otherwise it ends with the first maximum. -/
theorem argmax_candidates_eq_some_iff :
    (candidates usable key floor l).argmax key = some m ↔ IsFirstMax usable key floor l m := by
  induction l generalizing m with
  | nil =>
    refine iff_of_false (by simp [candidates]) ?_
    rintro ⟨l₁, l₂, hl, -⟩
    simp at hl
  | cons a l ih =>
    rw [isFirstMax_cons, ← ih]
    by_cases ha : floor < key a ∧ usable a
    · rw [candidates_cons_of_pos ha, List.argmax_cons]
      rcases hc : (candidates usable key floor l).argmax key with _ | c
      · have hlow : ∀ b ∈ l, usable b → key b ≤ key a := fun b hb hu =>
          (argmax_candidates_eq_none_iff.1 hc b hb hu).trans ha.1.le
        simp only [Option.some.injEq, reduceCtorEq, false_and, or_false]
        exact ⟨fun h => ⟨h, ha, hlow⟩, fun h => h.1⟩
      · have hmax := ih.1 hc
        by_cases hac : key a < key c
        · have hnot : ¬ ∀ b ∈ l, usable b → key b ≤ key a := fun h =>
            absurd (h c hmax.mem hmax.candidate.2) (not_le.2 hac)
          simp only [hac, ↓reduceIte, hnot, and_false, false_or, Option.some.injEq]
          exact ⟨fun h => ⟨h, fun _ => h ▸ hac⟩, fun h => h.1⟩
        · have hall : ∀ b ∈ l, usable b → key b ≤ key a := fun b hb hu =>
            (hmax.le b hb hu).trans (not_lt.1 hac)
          simp only [hac, ↓reduceIte, Option.some.injEq]
          constructor
          · exact fun h => .inl ⟨h, ha, hall⟩
          · rintro (⟨rfl, -⟩ | ⟨rfl, h⟩)
            · rfl
            · exact absurd (h ha.2) hac
    · rw [candidates_cons_of_neg ha]
      constructor
      · intro h
        refine .inr ⟨h, fun hu => ?_⟩
        have hlow : key a ≤ floor := not_lt.1 fun hlt => ha ⟨hlt, hu⟩
        exact hlow.trans_lt (ih.1 h).candidate.1
      · rintro (⟨-, hu, -⟩ | ⟨h, -⟩)
        · exact absurd hu ha
        · exact h

end Candidates

/-- In an increasing list the first of the maxima is the least. -/
theorem argmax_eq_some_iff_of_sorted [LinearOrder α] {l : List α} (hl : l.Pairwise (· < ·))
    {m : α} : l.argmax key = some m ↔
      m ∈ l ∧ (∀ a ∈ l, a < m → key a < key m) ∧ ∀ a ∈ l, key a ≤ key m := by
  have hidx : ∀ a ∈ l, ∀ b ∈ l, l.idxOf a ≤ l.idxOf b ↔ a ≤ b := by
    intro a ha b hb
    have hmono : StrictMono l.get := List.SortedLT.strictMono_get hl.sortedLT
    have := hmono.le_iff_le (a := ⟨l.idxOf a, List.idxOf_lt_length_iff.2 ha⟩)
      (b := ⟨l.idxOf b, List.idxOf_lt_length_iff.2 hb⟩)
    simpa using this.symm
  rw [List.argmax_eq_some_iff]
  constructor
  · rintro ⟨hm, hmax, hfirst⟩
    refine ⟨hm, fun a ha ham => lt_of_le_of_ne (hmax a ha) fun heq => ?_, hmax⟩
    exact absurd ((hidx m hm a ha).1 (hfirst a ha heq.ge)) (not_le.2 ham)
  · rintro ⟨hm, hfirst, hmax⟩
    refine ⟨hm, hmax, fun a ha hma => (hidx m hm a ha).2 ?_⟩
    by_contra hlt
    exact absurd (hfirst a ha (not_le.1 hlt)) (not_lt.2 hma)

end FirstMax
