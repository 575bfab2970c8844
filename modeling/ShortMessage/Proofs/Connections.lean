import ShortMessage.Proofs.Effects

/-!
# Where the connections go

A step gives back the connection it takes, but for the complete message whose `INSERT` throws
(`Leaks`): `Connection_clear` does not return it. A run has as many connections out as such steps.
-/

namespace ShortMessage

open CMemory

variable {cfg : Config} {w : World} {s s' s₀ : Server} {l : Label} {out : Out} {h : History}
  {head : Ptr}

/-- The request is a complete message whose `INSERT` throws. -/
def Label.Leaks (l : Label) : Prop :=
  match l.input with
  | .request bytes =>
    ControlHead.type (headOf bytes) = .ok SignalType.completeMessage.code ∧ l.world.fails 0 = true
  | .pass => False

instance : DecidablePred Label.Leaks := fun l => by
  unfold Label.Leaks
  cases l.input <;> infer_instance

theorem processCompleteMessage_checkedOut {r : Server × List Sent}
    (h : processCompleteMessage cfg w s head = .ok r) :
    r.1.checkedOut = s.checkedOut + if w.fails 0 then 1 else 0 := by
  obtain ⟨m, -, ⟨hfail, rfl⟩ | ⟨hfail, _, _, -, -, rfl⟩⟩ := processCompleteMessage_returns h
  · rw [hfail]
    rfl
  · rw [hfail]
    rfl

theorem accessToLogic_checkedOut {bytes : List Byte} {r : Server × List Sent}
    (h : accessToLogic cfg w s bytes = .ok r) :
    r.1.checkedOut = s.checkedOut + if Label.Leaks ⟨.request bytes, w⟩ then 1 else 0 := by
  have hkept {t : SignalType} (hty : ControlHead.type (headOf bytes) = .ok t.code)
      (ht : t ≠ .completeMessage) (hr : r.1.checkedOut = s.checkedOut) :
      r.1.checkedOut = s.checkedOut + if Label.Leaks ⟨.request bytes, w⟩ then 1 else 0 := by
    rw [if_neg fun hl => ht (type_code_inj hty hl.1), hr, Nat.add_zero]
  cases accessToLogic_dispatched h with
  | unhandled hty hr =>
    subst hr
    rw [if_neg fun hl => hty .completeMessage (by decide) hl.1]
    rfl
  | login hty h =>
    refine hkept hty nofun ?_
    obtain ⟨_, -, ⟨-, rfl⟩ | ⟨_, _, _, _, _, -, -, -, -, rfl⟩⟩ := processLogin_returns h <;> rfl
  | logout hty h =>
    refine hkept hty nofun ?_
    obtain ⟨_, _, _, _, _, -, -, -, -, rfl⟩ := processLogout_returns h
    rfl
  | mobileRequest hty h =>
    refine hkept hty nofun ?_
    obtain ⟨_, -, ⟨-, rfl⟩ | ⟨_, _, _, _, _, -, -, -, -, rfl⟩⟩ :=
      processMobileRequest_returns h <;> rfl
  | simpleMessage hty h =>
    refine hkept hty nofun ?_
    obtain ⟨_, -, ⟨-, rfl⟩ | ⟨-, _, -, rfl⟩⟩ := processSimpleMessage_returns h <;> rfl
  | completeMessage hty h =>
    rw [processCompleteMessage_checkedOut h]
    simp [Label.Leaks, hty]
  | receipte hty h =>
    refine hkept hty nofun ?_
    obtain ⟨_, _, _, -, -, -, ⟨-, rfl⟩ | ⟨-, _, -, -, rfl⟩⟩ := processReceipt_returns h <;> rfl

/-- A step takes one connection for good when it leaks, and none otherwise. -/
theorem step_checkedOut (h : step cfg s l = .ok (s', out)) :
    s'.checkedOut = s.checkedOut + if l.Leaks then 1 else 0 := by
  obtain ⟨s₁, rfl, ⟨bytes, sent, hl, hlogic, rfl⟩ | ⟨hl, hpass⟩⟩ := step_returns h
  · rcases l with ⟨_, w⟩
    subst hl
    exact accessToLogic_checkedOut hlogic
  · obtain ⟨_, _, _, -, -, -, hr⟩ := qosPass_returns hpass
    cases hr
    simp [Label.Leaks, hl]

theorem reaches_checkedOut {P : Server → Label → Prop} (hr : Run.Reaches (step cfg) P s₀ h s) :
    s.checkedOut = s₀.checkedOut + h.countP (·.1.Leaks) := by
  refine hr.invariant (I := fun h s => s.checkedOut = s₀.checkedOut + h.countP (·.1.Leaks)) rfl ?_
  intro h s l s' o ih _ hs
  rw [step_checkedOut hs, ih, List.countP_append, List.countP_singleton, Nat.add_assoc]
  simp

/-- After a run all connections are back exactly when none of its steps leaked. -/
theorem reaches_conserved_iff {P : Server → Label → Prop}
    (hr : Run.Reaches (step cfg) P s₀ h s) :
    s.checkedOut = s₀.checkedOut ↔ ∀ e ∈ h, ¬ e.1.Leaks := by
  rw [reaches_checkedOut hr, Nat.add_eq_left, List.countP_eq_zero]
  simp

theorem reaches_conserved_iff_hello : ∃ sent, helloCached.checkedOut = 0 ↔
    ∀ e ∈ [((⟨.request hello, .calm 0⟩ : Label), Out.ofSent sent)], ¬ e.1.Leaks := by
  obtain ⟨sent, hstep, -⟩ := hello_acks
  exact ⟨sent, reaches_conserved_iff (P := fun _ _ => True) (.next .start trivial hstep)⟩

/-- The `INSERT` of a complete message throws, and its connection stays out. -/
theorem failedInsert_not_conserved : ¬ ∀ cfg s₀ h s,
    Run.Reaches (step cfg) (fun _ _ => True) s₀ h s → s.checkedOut = s₀.checkedOut := by
  intro hall
  have hstep : step exactConfig (Server.start coverOne []) ⟨.request hello, .failing 0 0⟩ =
      .ok (⟨⟨[], [], coverOne, []⟩, 1, 1⟩, .ofSent []) := rfl
  have := hall _ _ _ _ (.next .start trivial hstep)
  cases this

end ShortMessage
