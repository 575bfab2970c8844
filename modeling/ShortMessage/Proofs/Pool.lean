import ShortMessage.Proofs.Emission

/-!
# Asking the pool for a connection

The loop of `GetConnection` ends on the first connection the pool gives, and on nothing else: it
never returns `NULL`, so that no caller meets one, and it does not end while the pool gives none.
-/

namespace ShortMessage

open CMemory

/-- The loop ends within three attempts, with a connection exactly when one of them gave one. -/
def Obtains (pool : ℕ → Bool) : Prop :=
  ∃ conn, getConnectionLoop pool 4 0 3 = .ok conn ∧ (conn = true ↔ ∃ i < 3, pool i = true)

/-- No step does anything on a `NULL` connection, in whatever state it is made. -/
def NeverOnNull (pool : ℕ → Bool) : Prop :=
  ∀ cfg s input w, w.pool = pool → step cfg s ⟨input, w⟩ ≠ .error .nullPointer

theorem getConnectionLoop_eq_ok_iff {pool : ℕ → Bool} {fuel i : ℕ} {conn : Bool} :
    getConnectionLoop pool fuel i 3 = .ok conn ↔
      conn = true ∧ ∃ k < fuel, pool (i + k) = true := by
  induction fuel generalizing i with
  | zero => simp [getConnectionLoop]
  | succ fuel ih =>
    rw [getConnectionLoop, if_pos (by decide)]
    by_cases hi : pool i = true
    · rw [if_pos hi, Except.ok.injEq, eq_comm, and_iff_left]
      exact ⟨0, by omega, hi⟩
    · rw [if_neg hi, ih]
      refine and_congr_right fun _ => ⟨?_, ?_⟩
      · rintro ⟨k, hk, hpool⟩
        exact ⟨k + 1, by omega, by rwa [← Nat.add_assoc, Nat.add_right_comm]⟩
      · rintro ⟨_ | k, hk, hpool⟩
        · exact absurd hpool hi
        · exact ⟨k, by omega, by rwa [Nat.add_right_comm, Nat.add_assoc]⟩

/-- A pool that never gives a connection is asked for ever. -/
theorem getConnectionLoop_blocked {pool : ℕ → Bool} (h : ∀ i, pool i = false) (fuel : ℕ) :
    getConnectionLoop pool fuel 0 3 = .error .blocked := by
  rcases getConnectionLoop_cases pool fuel 0 with hok | hblocked
  · obtain ⟨-, k, -, hk⟩ := getConnectionLoop_eq_ok_iff.1 hok
    simp [h] at hk
  · exact hblocked

theorem neverOnNull (pool : ℕ → Bool) : NeverOnNull pool := by
  intro cfg s input w _ h
  have hw : Admits (· ≠ .nullPointer) w := by
    refine ⟨?_, .inr (by simp)⟩
    rintro f hf rfl
    exact hf
  exact failsIn_step hw input _ h rfl

/-- A connection is obtained in time exactly when one of the first three attempts gives one. -/
theorem obtains_iff (pool : ℕ → Bool) :
    (Obtains pool ∧ NeverOnNull pool) ↔ ∃ i < 3, pool i = true := by
  rw [and_iff_left (neverOnNull pool)]
  constructor
  · rintro ⟨conn, hloop, hconn⟩
    exact hconn.1 (getConnectionLoop_eq_ok_iff.1 hloop).1
  · rintro ⟨i, hi, hpool⟩
    refine ⟨true, getConnectionLoop_eq_ok_iff.2 ⟨rfl, i, by omega, ?_⟩, ?_⟩
    · rwa [Nat.zero_add]
    · exact iff_of_true rfl ⟨i, hi, hpool⟩

/-- With no connection to be had, the loop has not ended after any number of attempts. -/
theorem exhausted_not_obtained :
    (∀ fuel, getConnectionLoop (fun _ => false) fuel 0 3 = .error .blocked) ∧
      ¬ ∀ pool, Obtains pool ∧ NeverOnNull pool := by
  refine ⟨getConnectionLoop_blocked fun _ => rfl, fun hall => ?_⟩
  obtain ⟨⟨conn, hloop, -⟩, -⟩ := hall fun _ => false
  rw [getConnectionLoop_blocked fun _ => rfl] at hloop
  cases hloop

end ShortMessage
