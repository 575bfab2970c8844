import ShortMessage.Lib.Interleaving

/-!
# Calls under one lock

Any number of threads call procedures on a shared state. A call takes the lock, waits on a condition
until its guard holds, executes its body statement by statement and gives the lock back; a body may
notify one of the threads that wait, and a thread may also wake for no reason. The calls take effect
one at a time, in the order they give the lock back (`reaches_linear`), and when each call notifies
once for each token it adds, no thread sleeps while there are more tokens than threads awake to take
them (`reaches_awake`).
-/

/-- The statements between taking the lock and giving it back. -/
inductive Body (σ ε α : Type) : Type 1
  | ret (a : α)
  | act {β : Type} (f : σ → Except ε (σ × β)) (next : β → Body σ ε α)
  | notify (next : Body σ ε α)

namespace Body

variable {σ ε α β : Type}

protected def bind : Body σ ε α → (α → Body σ ε β) → Body σ ε β
  | ret a, k => k a
  | act f next, k => act f fun b => (next b).bind k
  | notify next, k => notify (next.bind k)

instance : Monad (Body σ ε) where
  pure := ret
  bind := Body.bind

/-- One statement that reads the state. -/
def read (f : σ → Except ε β) : Body σ ε β := act (fun s => (f s).map fun b => (s, b)) ret

/-- One statement that writes to the state. -/
def write (f : σ → Except ε σ) : Body σ ε Unit := act (fun s => (f s).map fun s => (s, ())) ret

def notifyOne : Body σ ε Unit := notify (ret ())

/-- What a body does when no other thread interferes, with the number of its notifications. -/
def exec : Body σ ε α → σ → Except ε (σ × α × ℕ)
  | ret a, s => .ok (s, a, 0)
  | act f next, s => do
    let (s, b) ← f s
    (next b).exec s
  | notify next, s => do
    let (s, a, k) ← next.exec s
    return (s, a, k + 1)

theorem exec_act {f : σ → Except ε (σ × β)} {next : β → Body σ ε α} {s s' : σ} {b : β}
    (h : f s = .ok (s', b)) : (act f next).exec s = (next b).exec s' := by
  simp only [exec, h]
  rfl

@[simp] theorem exec_pure (a : α) (s : σ) : (pure a : Body σ ε α).exec s = .ok (s, a, 0) := rfl

@[simp] theorem exec_read_bind (f : σ → Except ε β) (k : β → Body σ ε α) (s : σ) :
    (read f >>= k).exec s = f s >>= fun b => (k b).exec s := by
  show (act _ k).exec s = _
  simp only [exec]
  rcases f s with e | b <;> rfl

@[simp] theorem exec_write_bind (f : σ → Except ε σ) (k : Unit → Body σ ε α) (s : σ) :
    (write f >>= k).exec s = f s >>= fun s => (k ()).exec s := by
  show (act _ k).exec s = _
  simp only [exec]
  rcases f s with e | b <;> rfl

@[simp] theorem exec_notifyOne_bind (k : Unit → Body σ ε α) (s : σ) :
    (notifyOne >>= k).exec s =
      (k ()).exec s >>= fun r => .ok (r.1, r.2.1, r.2.2 + 1) := rfl

theorem exec_bind (x : Body σ ε α) (k : α → Body σ ε β) (s : σ) :
    (x >>= k).exec s = x.exec s >>= fun r =>
      (k r.2.1).exec r.1 >>= fun r' => .ok (r'.1, r'.2.1, r'.2.2 + r.2.2) := by
  induction x generalizing s with
  | ret a =>
    show (k a).exec s = (k a).exec s >>= fun r => .ok (r.1, r.2.1, r.2.2 + 0)
    rcases (k a).exec s with e | ⟨s', b, n⟩ <;> rfl
  | act f next ih =>
    show (act f fun b => (next b).bind k).exec s = _
    simp only [exec]
    rcases f s with e | ⟨s', b⟩
    · rfl
    · exact ih b s'
  | notify next ih =>
    show ((next >>= k).exec s >>= fun r => .ok (r.1, r.2.1, r.2.2 + 1)) =
      ((next.exec s >>= fun r => .ok (r.1, r.2.1, r.2.2 + 1)) >>= _)
    rw [ih]
    rcases next.exec s with e | ⟨s', a, n⟩
    · rfl
    · show ((k a).exec s' >>= _) >>= _ = (k a).exec s' >>= _
      rcases (k a).exec s' with e | ⟨s'', b, n'⟩ <;> rfl

end Body

namespace Mutex

/-- Where a thread is in its call: it wants the lock, it has it and is about to test its guard, it
has it and executes its body, it waits, or it has left. -/
inductive Phase (C σ ε α : Type) : Type 1
  | entering (c : C)
  | testing (c : C)
  | inside (c : C) (rest : Body σ ε α)
  | waiting (c : C)
  | left (c : C) (a : α)

namespace Phase

variable {C σ ε α : Type}

def isWaiting : Phase C σ ε α → Bool
  | waiting _ => true
  | _ => false

/-- The thread is between taking the lock and giving it back. -/
def holds : Phase C σ ε α → Bool
  | testing _ => true
  | inside _ _ => true
  | _ => false

end Phase

structure Threads (C σ ε α : Type) where
  shared : σ
  holder : Option ℕ
  phases : List (Phase C σ ε α)

/-- Thread `u` is the one that thread `t` notifies, if it notifies any. -/
inductive Move (C : Type)
  | call (c : C)
  | enter (t : ℕ)
  | test (t : ℕ)
  | exec (t u : ℕ)
  | leave (t : ℕ)
  | wake (t : ℕ)

variable {C σ ε α : Type}

section Step

variable (guard : C → σ → Bool) (body : C → Body σ ε α)

/-- The thread that is notified goes for the lock. It is any of those that wait. -/
def notifyOne (phases : List (Phase C σ ε α)) (u : ℕ) : Except (Option ε) (List (Phase C σ ε α)) :=
  match phases[u]? with
  | some (.waiting c) => .ok (phases.set u (.entering c))
  | _ => if phases.any Phase.isWaiting then .error none else .ok phases

/-- `none` is the error of a move that is not possible. -/
def step (p : Threads C σ ε α) :
    Move C → Except (Option ε) (Threads C σ ε α × Option (C × α))
  | .call c => .ok (⟨p.shared, p.holder, p.phases ++ [.entering c]⟩, none)
  | .enter t =>
    match p.holder, p.phases[t]? with
    | none, some (.entering c) => .ok (⟨p.shared, some t, p.phases.set t (.testing c)⟩, none)
    | _, _ => .error none
  | .test t =>
    match p.phases[t]? with
    | some (.testing c) =>
      if guard c p.shared then
        .ok (⟨p.shared, p.holder, p.phases.set t (.inside c (body c))⟩, none)
      else .ok (⟨p.shared, none, p.phases.set t (.waiting c)⟩, none)
    | _ => .error none
  | .exec t u =>
    match p.phases[t]? with
    | some (.inside c (.act f next)) =>
      match f p.shared with
      | .ok (s, b) => .ok (⟨s, p.holder, p.phases.set t (.inside c (next b))⟩, none)
      | .error e => .error (some e)
    | some (.inside c (.notify next)) =>
      match notifyOne p.phases u with
      | .ok phases => .ok (⟨p.shared, p.holder, phases.set t (.inside c next)⟩, none)
      | .error e => .error e
    | _ => .error none
  | .leave t =>
    match p.phases[t]? with
    | some (.inside c (.ret a)) =>
      .ok (⟨p.shared, none, p.phases.set t (.left c a)⟩, some (c, a))
    | _ => .error none
  | .wake t =>
    match p.phases[t]? with
    | some (.waiting c) => .ok (⟨p.shared, p.holder, p.phases.set t (.entering c)⟩, none)
    | _ => .error none

/-- A call by itself; one whose guard does not hold does not return. -/
def alone (s : σ) (c : C) : Except (Option ε) (σ × α) :=
  if guard c s then
    match (body c).exec s with
    | .ok (s, a, _) => .ok (s, a)
    | .error e => .error (some e)
  else .error none

end Step

/-- What a move can do. -/
inductive Stepped (guard : C → σ → Bool) (body : C → Body σ ε α) (p : Threads C σ ε α) :
    Move C → Threads C σ ε α → Option (C × α) → Prop
  | call {c : C} :
    Stepped guard body p (.call c) ⟨p.shared, p.holder, p.phases ++ [.entering c]⟩ none
  | enter {t : ℕ} {c : C} : p.holder = none → p.phases[t]? = some (.entering c) →
    Stepped guard body p (.enter t) ⟨p.shared, some t, p.phases.set t (.testing c)⟩ none
  | proceed {t : ℕ} {c : C} : p.phases[t]? = some (.testing c) → guard c p.shared = true →
    Stepped guard body p (.test t)
      ⟨p.shared, p.holder, p.phases.set t (.inside c (body c))⟩ none
  | wait {t : ℕ} {c : C} : p.phases[t]? = some (.testing c) → guard c p.shared = false →
    Stepped guard body p (.test t) ⟨p.shared, none, p.phases.set t (.waiting c)⟩ none
  | act {t u : ℕ} {c : C} {β : Type} {f : σ → Except ε (σ × β)} {next : β → Body σ ε α} {s : σ}
    {b : β} : p.phases[t]? = some (.inside c (.act f next)) → f p.shared = .ok (s, b) →
    Stepped guard body p (.exec t u) ⟨s, p.holder, p.phases.set t (.inside c (next b))⟩ none
  | notify {t u : ℕ} {c c' : C} {next : Body σ ε α} :
    p.phases[t]? = some (.inside c (.notify next)) → p.phases[u]? = some (.waiting c') →
    Stepped guard body p (.exec t u)
      ⟨p.shared, p.holder, (p.phases.set u (.entering c')).set t (.inside c next)⟩ none
  | unheard {t u : ℕ} {c : C} {next : Body σ ε α} :
    p.phases[t]? = some (.inside c (.notify next)) → p.phases.any Phase.isWaiting = false →
    Stepped guard body p (.exec t u) ⟨p.shared, p.holder, p.phases.set t (.inside c next)⟩ none
  | leave {t : ℕ} {c : C} {a : α} : p.phases[t]? = some (.inside c (.ret a)) →
    Stepped guard body p (.leave t) ⟨p.shared, none, p.phases.set t (.left c a)⟩ (some (c, a))
  | wake {t : ℕ} {c : C} : p.phases[t]? = some (.waiting c) →
    Stepped guard body p (.wake t) ⟨p.shared, p.holder, p.phases.set t (.entering c)⟩ none

variable {guard : C → σ → Bool} {body : C → Body σ ε α} {p p' : Threads C σ ε α} {l : Move C}
  {o : Option (C × α)} {s s₀ : σ} {j t u : ℕ} {c : C} {h : List (Move C × Option (C × α))}

theorem step_cases (hs : step guard body p l = .ok (p', o)) : Stepped guard body p l p' o := by
  cases l with
  | call =>
    cases hs
    exact .call
  | enter =>
    simp only [step] at hs
    split at hs
    next hh ht =>
      cases hs
      exact .enter hh ht
    next => cases hs
  | test =>
    simp only [step] at hs
    split at hs
    next c ht =>
      split_ifs at hs with hg <;> cases hs
      · exact .proceed ht hg
      · exact .wait ht (Bool.eq_false_iff.2 hg)
    next => cases hs
  | exec t u =>
    simp only [step] at hs
    split at hs
    next ht =>
      split at hs
      next hf =>
        cases hs
        exact .act ht hf
      next => cases hs
    next ht =>
      unfold notifyOne at hs
      split at hs
      next hn =>
        split at hn
        next hu =>
          cases hn
          cases hs
          exact .notify ht hu
        next =>
          split_ifs at hn with hany
          cases hn
          cases hs
          exact .unheard ht (Bool.eq_false_iff.2 hany)
      next => cases hs
    next => cases hs
  | leave =>
    simp only [step] at hs
    split at hs
    next ht =>
      cases hs
      exact .leave ht
    next => cases hs
  | wake =>
    simp only [step] at hs
    split at hs
    next ht =>
      cases hs
      exact .wake ht
    next => cases hs

theorem Stepped.step_eq (hs : Stepped guard body p l p' o) : step guard body p l = .ok (p', o) := by
  cases hs with
  | call => rfl
  | enter hfree ht => simp only [step, hfree, ht]
  | proceed ht hg => simp only [step, ht, hg, if_true]
  | wait ht hg =>
    simp only [step, ht, hg]
    rfl
  | act ht hf => simp only [step, ht, hf]
  | notify ht hu => simp only [step, notifyOne, ht, hu]
  | @unheard t u c next ht hnone =>
    have hu : notifyOne (ε := ε) p.phases u = .ok p.phases := by
      unfold notifyOne
      split
      next c' hu =>
        exact absurd rfl (List.any_eq_false.1 hnone _ (List.mem_of_getElem? hu))
      next => rw [hnone, if_neg Bool.false_ne_true]
    simp only [step, ht, hu]
  | leave ht => simp only [step, ht]
  | wake ht => simp only [step, ht]

/-! ## One call at a time -/

/-- The calls that have returned, in the order they gave the lock back. -/
def returned (h : List (Move C × Option (C × α))) : List (C × α) := h.filterMap (·.2)

theorem returned_concat (l : Move C) (o : Option (C × α)) :
    returned (h ++ [(l, o)]) = returned h ++ o.toList := by
  rw [returned, List.filterMap_append, ← returned]
  cases o <;> rfl

/-- What the thread with the lock has still to do is the rest of its call from the state `s` that
the last call left; it has notified `j` times. -/
inductive Held (guard : C → σ → Bool) (body : C → Body σ ε α) (Q : σ → C → Prop) (s : σ) (j : ℕ)
    (shared : σ) : Phase C σ ε α → Prop
  | testing {c : C} : shared = s → j = 0 → Held guard body Q s j shared (.testing c)
  | inside {c : C} {rest : Body σ ε α} : guard c s = true → Q s c →
    (body c).exec s = (rest.exec shared).map (fun r => (r.1, r.2.1, r.2.2 + j)) →
    Held guard body Q s j shared (.inside c rest)

/-- The calls that have returned, one after the other, leave state `s`, and at most one thread has
gone on from there. -/
structure Consistent (guard : C → σ → Bool) (body : C → Body σ ε α) (Q : σ → C → Prop) (s₀ : σ)
    (h : List (Move C × Option (C × α))) (p : Threads C σ ε α) (s : σ) (j : ℕ) : Prop where
  run : Run.Reaches (alone guard body) Q s₀ (returned h) s
  exclusive : ∀ t ph, p.phases[t]? = some ph → ph.holds = true → p.holder = some t
  free : p.holder = none → p.shared = s ∧ j = 0
  held : ∀ t, p.holder = some t →
    ∃ ph, p.phases[t]? = some ph ∧ Held guard body Q s j p.shared ph

/-- A body is entered where `Q` holds. -/
def AtTest (guard : C → σ → Bool) (Q : σ → C → Prop) (p : Threads C σ ε α) (l : Move C) : Prop :=
  ∀ t c, l = .test t → p.phases[t]? = some (.testing c) → guard c p.shared = true → Q p.shared c

section Linear

variable {Q : σ → C → Prop}

/-- A thread that has the lock is the holder, in a phase its call can be in. -/
theorem Consistent.of_holds (hk : Consistent guard body Q s₀ h p s j) {ph : Phase C σ ε α}
    (ht : p.phases[t]? = some ph) (hph : ph.holds = true) :
    p.holder = some t ∧ Held guard body Q s j p.shared ph := by
  have hholder := hk.exclusive t ph ht hph
  obtain ⟨ph', ht', hheld⟩ := hk.held t hholder
  rw [ht, Option.some.injEq] at ht'
  exact ⟨hholder, ht' ▸ hheld⟩

/-- A thread that does not have the lock moves on without it. -/
theorem Consistent.aside (hk : Consistent guard body Q s₀ h p s j) {ph ph' : Phase C σ ε α}
    (ht : p.phases[t]? = some ph) (hph : ph.holds = false) (hph' : ph'.holds = false) :
    Consistent guard body Q s₀ h ⟨p.shared, p.holder, p.phases.set t ph'⟩ s j := by
  refine ⟨hk.run, fun t' x hx hholds => ?_, hk.free, fun t' hh => ?_⟩
  · rcases Interleaving.getElem?_set_cases ht hx with ⟨rfl, rfl⟩ | ⟨-, hx⟩
    · rw [hph'] at hholds
      cases hholds
    · exact hk.exclusive t' x hx hholds
  · obtain ⟨x, hx, hheld⟩ := hk.held t' hh
    have hne : t ≠ t' := by
      rintro rfl
      rw [ht, Option.some.injEq] at hx
      subst hx
      cases hheld <;> cases hph
    exact ⟨x, by rwa [List.getElem?_set_ne hne], hheld⟩

/-- The thread with the lock moves on and keeps it. -/
theorem Consistent.onward (hk : Consistent guard body Q s₀ h p s j) {ph ph' : Phase C σ ε α}
    {shared : σ} {j' : ℕ} (ht : p.phases[t]? = some ph) (hholder : p.holder = some t)
    (hheld : Held guard body Q s j' shared ph') :
    Consistent guard body Q s₀ h ⟨shared, p.holder, p.phases.set t ph'⟩ s j' := by
  refine ⟨hk.run, fun t' x hx hholds => ?_, fun hn => ?_, fun t' hh => ?_⟩
  · rcases Interleaving.getElem?_set_cases ht hx with ⟨rfl, rfl⟩ | ⟨-, hx⟩
    · exact hholder
    · exact hk.exclusive t' x hx hholds
  · cases hholder.symm.trans hn
  · obtain rfl : t = t' := Option.some.inj (hholder.symm.trans hh)
    exact ⟨ph', List.getElem?_set_self (List.getElem?_eq_some_iff.1 ht).1, hheld⟩

/-- The thread with the lock gives it back. -/
theorem Consistent.release (hk : Consistent guard body Q s₀ h p s j) {ph ph' : Phase C σ ε α}
    (ht : p.phases[t]? = some ph) (hholder : p.holder = some t) (hph' : ph'.holds = false)
    {h' : List (Move C × Option (C × α))}
    (hr : Run.Reaches (alone guard body) Q s₀ (returned h') p.shared) :
    Consistent guard body Q s₀ h' ⟨p.shared, none, p.phases.set t ph'⟩ p.shared 0 := by
  refine ⟨hr, fun t' x hx hholds => ?_, fun _ => ⟨rfl, rfl⟩, nofun⟩
  rcases Interleaving.getElem?_set_cases ht hx with ⟨rfl, rfl⟩ | ⟨hne, hx⟩
  · rw [hph'] at hholds
    cases hholds
  · have := hk.exclusive t' x hx hholds
    rw [hholder, Option.some.injEq] at this
    exact absurd this.symm hne

theorem Consistent.concat {l : Move C} (hk : Consistent guard body Q s₀ h p s j) :
    Consistent guard body Q s₀ (h ++ [(l, none)]) p s j :=
  ⟨by rw [returned_concat, Option.toList_none, List.append_nil]; exact hk.run, hk.exclusive,
    hk.free, hk.held⟩

theorem Consistent.call (hk : Consistent guard body Q s₀ h p s j) (c : C) :
    Consistent guard body Q s₀ h ⟨p.shared, p.holder, p.phases ++ [.entering c]⟩ s j := by
  refine ⟨hk.run, fun t x hx hholds => ?_, hk.free, fun t hh => ?_⟩
  · rcases Run.getElem?_concat.1 hx with hx | ⟨-, rfl⟩
    · exact hk.exclusive t x hx hholds
    · cases hholds
  · obtain ⟨x, hx, hheld⟩ := hk.held t hh
    exact ⟨x, Run.getElem?_concat.2 (.inl hx), hheld⟩

theorem Consistent.enter (hk : Consistent guard body Q s₀ h p s j) (hfree : p.holder = none)
    (ht : p.phases[t]? = some (.entering c)) :
    Consistent guard body Q s₀ h ⟨p.shared, some t, p.phases.set t (.testing c)⟩ s j := by
  obtain ⟨hshared, hj⟩ := hk.free hfree
  refine ⟨hk.run, fun t' x hx hholds => ?_, nofun, fun t' hh => ?_⟩
  · rcases Interleaving.getElem?_set_cases ht hx with ⟨rfl, rfl⟩ | ⟨-, hx⟩
    · rfl
    · cases hfree.symm.trans (hk.exclusive t' x hx hholds)
  · obtain rfl : t = t' := Option.some.inj hh
    exact ⟨_, List.getElem?_set_self (List.getElem?_eq_some_iff.1 ht).1, .testing hshared hj⟩

theorem Consistent.proceed (hk : Consistent guard body Q s₀ h p s j)
    (hP : AtTest guard Q p (.test t)) (ht : p.phases[t]? = some (.testing c))
    (hg : guard c p.shared = true) :
    Consistent guard body Q s₀ h ⟨p.shared, p.holder, p.phases.set t (.inside c (body c))⟩ s j := by
  obtain ⟨hholder, hheld⟩ := hk.of_holds ht rfl
  obtain ⟨hshared, hj⟩ : p.shared = s ∧ j = 0 := by
    cases hheld with
    | testing hshared hj => exact ⟨hshared, hj⟩
  have hQ := hP t c rfl ht hg
  subst hshared hj
  refine hk.onward ht hholder (.inside hg hQ ?_)
  rcases (body c).exec p.shared with e | ⟨s', a, k⟩ <;> rfl

/-- A guard that does not hold was tested in the state that the last call left. -/
theorem Consistent.wait (hk : Consistent guard body Q s₀ h p s j)
    (ht : p.phases[t]? = some (.testing c)) :
    (p.shared = s ∧ j = 0) ∧
      Consistent guard body Q s₀ h ⟨p.shared, none, p.phases.set t (.waiting c)⟩ p.shared 0 := by
  obtain ⟨hholder, hheld⟩ := hk.of_holds ht rfl
  obtain ⟨hshared, hj⟩ : p.shared = s ∧ j = 0 := by
    cases hheld with
    | testing hshared hj => exact ⟨hshared, hj⟩
  exact ⟨⟨hshared, hj⟩, hk.release ht hholder rfl (hshared ▸ hk.run)⟩

theorem Consistent.act (hk : Consistent guard body Q s₀ h p s j) {β : Type}
    {f : σ → Except ε (σ × β)} {next : β → Body σ ε α} {s' : σ} {b : β}
    (ht : p.phases[t]? = some (.inside c (.act f next))) (hf : f p.shared = .ok (s', b)) :
    Consistent guard body Q s₀ h ⟨s', p.holder, p.phases.set t (.inside c (next b))⟩ s j := by
  obtain ⟨hholder, hheld⟩ := hk.of_holds ht rfl
  refine hk.onward ht hholder ?_
  cases hheld with
  | inside hg hQ hexec => exact .inside hg hQ (by rw [hexec, Body.exec_act hf])

theorem Consistent.notify (hk : Consistent guard body Q s₀ h p s j) {next : Body σ ε α}
    (ht : p.phases[t]? = some (.inside c (.notify next))) :
    Consistent guard body Q s₀ h ⟨p.shared, p.holder, p.phases.set t (.inside c next)⟩ s
      (j + 1) := by
  obtain ⟨hholder, hheld⟩ := hk.of_holds ht rfl
  refine hk.onward ht hholder ?_
  cases hheld with
  | inside hg hQ hexec =>
    refine .inside hg hQ ?_
    rw [hexec, Body.exec]
    rcases next.exec p.shared with e | ⟨s', a, k⟩
    · rfl
    · have hcount : k + 1 + j = k + (j + 1) := by omega
      exact congrArg (fun n => Except.ok (s', a, n)) hcount

/-- A call returns what it returns by itself. -/
theorem Consistent.leave {a : α} (hk : Consistent guard body Q s₀ h p s j)
    (ht : p.phases[t]? = some (.inside c (.ret a))) :
    (guard c s = true ∧ Q s c ∧ (body c).exec s = .ok (p.shared, a, j)) ∧
      Consistent guard body Q s₀ (h ++ [(.leave t, some (c, a))])
        ⟨p.shared, none, p.phases.set t (.left c a)⟩ p.shared 0 := by
  obtain ⟨hholder, hheld⟩ := hk.of_holds ht rfl
  obtain ⟨hg, hQ, hexec⟩ : guard c s = true ∧ Q s c ∧ (body c).exec s = .ok (p.shared, a, j) := by
    cases hheld with
    | inside hg hQ hexec => exact ⟨hg, hQ, by simpa [Body.exec, Except.map] using hexec⟩
  refine ⟨⟨hg, hQ, hexec⟩, hk.release ht hholder rfl ?_⟩
  rw [returned_concat]
  exact hk.run.next hQ (by rw [alone, if_pos hg, hexec])

theorem Consistent.next (hk : Consistent guard body Q s₀ h p s j) (hP : AtTest guard Q p l)
    (hs : Stepped guard body p l p' o) :
    ∃ s' j', Consistent guard body Q s₀ (h ++ [(l, o)]) p' s' j' := by
  cases hs with
  | call => exact ⟨s, j, (hk.call _).concat⟩
  | enter hfree ht => exact ⟨s, j, (hk.enter hfree ht).concat⟩
  | proceed ht hg => exact ⟨s, j, (hk.proceed hP ht hg).concat⟩
  | wait ht => exact ⟨_, _, (hk.wait ht).2.concat⟩
  | act ht hf => exact ⟨s, j, (hk.act ht hf).concat⟩
  | @notify t u c c' next ht hu =>
    have hne : u ≠ t := by
      rintro rfl
      rw [ht] at hu
      cases hu
    have hset : (p.phases.set u (.entering c'))[t]? = some (.inside c (.notify next)) := by
      rwa [List.getElem?_set_ne hne]
    exact ⟨s, j + 1, ((hk.aside hu rfl rfl).notify hset).concat⟩
  | unheard ht => exact ⟨s, j + 1, (hk.notify ht).concat⟩
  | leave ht => exact ⟨_, _, (hk.leave ht).2⟩
  | wake ht => exact ⟨s, j, (hk.aside ht rfl rfl).concat⟩

theorem reaches_consistent
    (hr : Run.Reaches (step guard body) (AtTest guard Q) ⟨s₀, none, []⟩ h p) :
    ∃ s j, Consistent guard body Q s₀ h p s j := by
  refine hr.invariant (I := fun h p => ∃ s j, Consistent guard body Q s₀ h p s j) ?_ ?_
  · exact ⟨s₀, 0, .start, nofun, fun _ => ⟨rfl, rfl⟩, nofun⟩
  · rintro h p l p' o ⟨s, j, hk⟩ hP hs
    exact hk.next hP (step_cases hs)

/-- The calls that have returned did so as if they had been made one after the other, and one thread
has the lock at most. -/
theorem reaches_linear (hr : Run.Reaches (step guard body) (AtTest guard Q) ⟨s₀, none, []⟩ h p) :
    (∃ s, Run.Reaches (alone guard body) Q s₀ (returned h) s ∧ (p.holder = none → p.shared = s)) ∧
      ∀ (t t' : ℕ) ph ph', p.phases[t]? = some ph → p.phases[t']? = some ph' →
        ph.holds = true → ph'.holds = true → t = t' := by
  obtain ⟨s, j, hk⟩ := reaches_consistent hr
  refine ⟨⟨s, hk.run, fun hfree => (hk.free hfree).1⟩, fun t t' ph ph' ht ht' hph hph' => ?_⟩
  exact Option.some.inj ((hk.exclusive t ph ht hph).symm.trans (hk.exclusive t' ph' ht' hph'))

end Linear

/-! ## Waking up -/

/-- What the calls do to the tokens that a state holds: a guard fails only for a call that takes a
token, where there is none; a call notifies at least once for each token it adds. -/
structure Tokens (guard : C → σ → Bool) (body : C → Body σ ε α) (Q : σ → C → Prop)
    (takes : C → Bool) (T : σ → ℕ → Prop) : Prop where
  of_guard : ∀ c s, guard c s = false → takes c = true
  empty : ∀ c s n, guard c s = false → T s n → n = 0
  exec : ∀ c s s' a k n, Q s c → guard c s = true → (body c).exec s = .ok (s', a, k) → T s n →
    ∃ n', T s' n' ∧ n' + (takes c).toNat ≤ n + k

/-- The thread is on its way to a token. -/
def Phase.isAwake (takes : C → Bool) : Phase C σ ε α → Bool
  | entering c => takes c
  | testing c => takes c
  | inside c _ => takes c
  | _ => false

/-- While threads sleep, there are no more tokens than threads awake to take them. -/
structure Awake (takes : C → Bool) (T : σ → ℕ → Prop) (p : Threads C σ ε α) (s : σ) (j : ℕ) :
    Prop where
  sleepers : ∀ (t : ℕ) c, p.phases[t]? = some (.waiting c) → takes c = true
  enough : ∃ n, T s n ∧ (0 < p.phases.countP Phase.isWaiting →
    n + j ≤ p.phases.countP (Phase.isAwake takes))

section Awake

variable {Q : σ → C → Prop} {takes : C → Bool} {T : σ → ℕ → Prop}

/-- A thread that does not go to sleep changes its phase. -/
theorem Awake.set {s' : σ} {j' : ℕ} {holder : Option ℕ} {shared : σ} (hk : Awake takes T p s j)
    {ph ph' : Phase C σ ε α} (ht : p.phases[t]? = some ph) (hph' : ph'.isWaiting = false)
    (htokens : ∀ n, T s n → ∃ n', T s' n' ∧
      n' + j' + (ph.isAwake takes).toNat ≤ n + j + (ph'.isAwake takes).toNat) :
    Awake takes T ⟨shared, holder, p.phases.set t ph'⟩ s' j' := by
  refine ⟨fun t' c' hx => ?_, ?_⟩
  · rcases Interleaving.getElem?_set_cases ht hx with ⟨rfl, rfl⟩ | ⟨-, hx⟩
    · cases hph'
    · exact hk.sleepers t' c' hx
  · obtain ⟨n, hn, henough⟩ := hk.enough
    obtain ⟨n', hn', hle⟩ := htokens n hn
    have hwaiting := Interleaving.countP_set_add Phase.isWaiting ph' ht
    have hawake := Interleaving.countP_set_add (Phase.isAwake takes) ph' ht
    rw [hph', Bool.toNat_false] at hwaiting
    refine ⟨n', hn', fun (hpos : 0 < (p.phases.set t ph').countP Phase.isWaiting) => ?_⟩
    have := henough (by omega)
    show n' + j' ≤ (p.phases.set t ph').countP (Phase.isAwake takes)
    omega

/-- A change of phase that neither adds a token nor takes one. -/
theorem Awake.onward {holder : Option ℕ} {shared : σ} (hk : Awake takes T p s j)
    {ph ph' : Phase C σ ε α} (ht : p.phases[t]? = some ph) (hph' : ph'.isWaiting = false)
    (hawake : ph'.isAwake takes = ph.isAwake takes) :
    Awake takes T ⟨shared, holder, p.phases.set t ph'⟩ s j :=
  hk.set ht hph' fun n hn => ⟨n, hn, Nat.le_of_eq (by rw [hawake])⟩

theorem Awake.call (hk : Awake takes T p s j) (c : C) :
    Awake takes T ⟨p.shared, p.holder, p.phases ++ [.entering c]⟩ s j := by
  refine ⟨fun t c' hx => ?_, ?_⟩
  · rcases Run.getElem?_concat.1 hx with hx | ⟨-, hx⟩
    · exact hk.sleepers t c' hx
    · cases hx
  · obtain ⟨n, hn, henough⟩ := hk.enough
    refine ⟨n, hn, fun hpos => ?_⟩
    simp only [List.countP_append, List.countP_singleton, Phase.isWaiting] at hpos ⊢
    have := henough (by simpa using hpos)
    omega

theorem Awake.wait {holder : Option ℕ} (htokens : Tokens guard body Q takes T)
    (hk : Awake takes T p p.shared 0) (ht : p.phases[t]? = some (.testing c))
    (hg : guard c p.shared = false) :
    Awake takes T ⟨p.shared, holder, p.phases.set t (.waiting c)⟩ p.shared 0 := by
  refine ⟨fun t' c' hx => ?_, ?_⟩
  · rcases Interleaving.getElem?_set_cases ht hx with ⟨rfl, heq⟩ | ⟨-, hx⟩
    · cases heq
      exact htokens.of_guard c _ hg
    · exact hk.sleepers t' c' hx
  · obtain ⟨n, hn, -⟩ := hk.enough
    obtain rfl := htokens.empty c _ n hg hn
    exact ⟨0, hn, fun _ => Nat.zero_le _⟩

/-- A thread that wakes is one more on its way to a token. -/
theorem Awake.wake (hk : Awake takes T p s j) (ht : p.phases[t]? = some (.waiting c)) {j' : ℕ}
    (hj : j' ≤ j + 1) :
    Awake takes T ⟨p.shared, p.holder, p.phases.set t (.entering c)⟩ s j' := by
  refine hk.set ht rfl fun n hn => ⟨n, hn, ?_⟩
  simp only [Phase.isAwake, hk.sleepers t c ht, Bool.toNat_true, Bool.toNat_false]
  omega

/-- With no thread asleep there is nobody to wake. -/
theorem Awake.unheard (hk : Awake takes T p s j) {next : Body σ ε α}
    (ht : p.phases[t]? = some (.inside c (.notify next)))
    (hnone : p.phases.any Phase.isWaiting = false) :
    Awake takes T ⟨p.shared, p.holder, p.phases.set t (.inside c next)⟩ s (j + 1) := by
  have hzero : p.phases.countP Phase.isWaiting = 0 := by
    rw [List.countP_eq_zero]
    exact fun x hx => by simpa using (List.any_eq_false.1 hnone) x hx
  have hset := Interleaving.countP_set_add Phase.isWaiting (.inside c next) ht
  have hnext : Awake takes T ⟨p.shared, p.holder, p.phases.set t (.inside c next)⟩ s j :=
    hk.onward ht rfl rfl
  obtain ⟨n, hn, -⟩ := hk.enough
  refine ⟨hnext.sleepers, n, hn, fun hpos => ?_⟩
  rw [hzero] at hset
  exact absurd hset (by simpa [Phase.isWaiting] using Nat.ne_of_gt hpos)

theorem reaches_awake (htokens : Tokens guard body Q takes T) (hstart : ∃ n, T s₀ n)
    (hr : Run.Reaches (step guard body) (AtTest guard Q) ⟨s₀, none, []⟩ h p) :
    ∃ s j, Consistent guard body Q s₀ h p s j ∧ Awake takes T p s j := by
  refine hr.invariant
    (I := fun h p => ∃ s j, Consistent guard body Q s₀ h p s j ∧ Awake takes T p s j) ?_ ?_
  · obtain ⟨n, hn⟩ := hstart
    exact ⟨s₀, 0, ⟨.start, nofun, fun _ => ⟨rfl, rfl⟩, nofun⟩, nofun, n, hn, nofun⟩
  rintro h p l p' o ⟨s, j, hk, ha⟩ hP hs
  cases step_cases hs with
  | call => exact ⟨s, j, (hk.call _).concat, ha.call _⟩
  | enter hfree ht => exact ⟨s, j, (hk.enter hfree ht).concat, ha.onward ht rfl rfl⟩
  | proceed ht hg => exact ⟨s, j, (hk.proceed hP ht hg).concat, ha.onward ht rfl rfl⟩
  | wait ht hg =>
    obtain ⟨⟨rfl, rfl⟩, hk'⟩ := hk.wait ht
    exact ⟨_, _, hk'.concat, ha.wait htokens ht hg⟩
  | act ht hf => exact ⟨s, j, (hk.act ht hf).concat, ha.onward ht rfl rfl⟩
  | @notify t u c c' next ht hu =>
    have hne : u ≠ t := by
      rintro rfl
      rw [ht] at hu
      cases hu
    have hset : (p.phases.set u (.entering c'))[t]? = some (.inside c (.notify next)) := by
      rwa [List.getElem?_set_ne hne]
    exact ⟨s, j + 1, ((hk.aside hu rfl rfl).notify hset).concat,
      (ha.wake hu (Nat.le_refl _)).onward hset rfl rfl⟩
  | unheard ht hnone => exact ⟨s, j + 1, (hk.notify ht).concat, ha.unheard ht hnone⟩
  | @leave t c a ht =>
    obtain ⟨⟨hg, hQ, hexec⟩, hk'⟩ := hk.leave ht
    refine ⟨_, _, hk', ha.set ht rfl fun n hn => ?_⟩
    obtain ⟨n', hn', hle⟩ := htokens.exec c s _ a j n hQ hg hexec hn
    exact ⟨n', hn', by simpa [Phase.isAwake] using hle⟩
  | wake ht => exact ⟨s, j, (hk.aside ht rfl rfl).concat, ha.wake ht (Nat.le_succ j)⟩

/-! ## Coming to a stop -/

/-- Nothing goes on but by a new call or a thread that wakes for no reason. -/
def Quiet (guard : C → σ → Bool) (body : C → Body σ ε α) (p : Threads C σ ε α) : Prop :=
  ∀ l p' o, step guard body p l = .ok (p', o) → (∃ c, l = .call c) ∨ ∃ t, l = .wake t

/-- When the threads have come to a stop, each has left or sleeps. -/
theorem Consistent.quiet (hk : Consistent guard body Q s₀ h p s j) (hquiet : Quiet guard body p)
    (returns : ∀ c, Q s c → guard c s = true → ∃ r, (body c).exec s = .ok r) :
    p.holder = none ∧ ∀ (t : ℕ) ph, p.phases[t]? = some ph →
      (∃ c a, ph = .left c a) ∨ ∃ c, ph = .waiting c := by
  have stuck {l : Move C} {p' : Threads C σ ε α} {o : Option (C × α)}
      (hs : Stepped guard body p l p' o) := hquiet l p' o hs.step_eq
  have hfree : p.holder = none := by
    rcases hh : p.holder with _ | t
    · rfl
    exfalso
    obtain ⟨ph, ht, hheld⟩ := hk.held t hh
    cases hheld with
    | @testing c hshared hj =>
      rcases hg : guard c p.shared
      · rcases stuck (.wait ht hg) with ⟨_, h⟩ | ⟨_, h⟩ <;> cases h
      · rcases stuck (.proceed ht hg) with ⟨_, h⟩ | ⟨_, h⟩ <;> cases h
    | @inside c rest hg hQ hexec =>
      obtain ⟨r, hr⟩ := returns c hQ hg
      rw [hexec] at hr
      cases rest with
      | ret a => rcases stuck (.leave ht) with ⟨_, h⟩ | ⟨_, h⟩ <;> cases h
      | act f next =>
        rcases hf : f p.shared with e | s'
        · simp only [Body.exec, hf] at hr
          cases hr
        · rcases stuck (.act (u := t) ht hf) with ⟨_, h⟩ | ⟨_, h⟩ <;> cases h
      | notify next =>
        -- there is a thread asleep, or there is none
        rcases hany : p.phases.any Phase.isWaiting
        · rcases stuck (.unheard (u := t) ht hany) with ⟨_, h⟩ | ⟨_, h⟩ <;> cases h
        · obtain ⟨x, hx, hwaiting⟩ := List.any_eq_true.1 hany
          obtain ⟨u, hu⟩ := List.getElem?_of_mem hx
          cases x with
          | waiting c' => rcases stuck (.notify ht hu) with ⟨_, h⟩ | ⟨_, h⟩ <;> cases h
          | _ => cases hwaiting
  refine ⟨hfree, fun t ph ht => ?_⟩
  cases ph with
  | entering c => rcases stuck (.enter hfree ht) with ⟨_, h⟩ | ⟨_, h⟩ <;> cases h
  | testing c => cases hfree.symm.trans (hk.exclusive t _ ht rfl)
  | inside c rest => cases hfree.symm.trans (hk.exclusive t _ ht rfl)
  | waiting c => exact .inr ⟨c, rfl⟩
  | left c a => exact .inl ⟨c, a, rfl⟩

/-- When the threads have come to a stop and one of them sleeps, there is no token. -/
theorem Awake.quiet (ha : Awake takes T p s j)
    (hphases : ∀ (t : ℕ) ph, p.phases[t]? = some ph →
      (∃ c a, ph = .left c a) ∨ ∃ c, ph = .waiting c)
    (ht : p.phases[t]? = some (.waiting c)) : T s 0 := by
  obtain ⟨n, hn, henough⟩ := ha.enough
  have hnone : p.phases.countP (Phase.isAwake takes) = 0 := by
    rw [List.countP_eq_zero]
    intro x hx
    obtain ⟨u, hu⟩ := List.getElem?_of_mem hx
    rcases hphases u x hu with ⟨_, _, rfl⟩ | ⟨_, rfl⟩ <;> exact Bool.false_ne_true
  have hsleeps : 0 < p.phases.countP Phase.isWaiting :=
    List.countP_pos_iff.2 ⟨_, List.mem_of_getElem? ht, rfl⟩
  have := henough hsleeps
  obtain rfl : n = 0 := by omega
  exact hn

end Awake

end Mutex
