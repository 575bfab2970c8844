import Mathlib.Data.List.Forall2
import ShortMessage.Lib.Program
import ShortMessage.Lib.Run

/-!
# Programs on several threads

Any number of threads, each running the program of its job, execute their operations on one shared
state, one operation at a time and in any order. New threads are started at any time; thread `t` is
the one started as number `t`. What holds of every run is found with a monitor's states as ghosts,
one for each thread (`reaches_obeyed`).
-/

/-- A job and what is left to do of its program. -/
structure Thread (J Op : Type) (Res : Op → Type) (α : Type) where
  job : J
  rest : Program Op Res α

structure Interleaving (σ J Op : Type) (Res : Op → Type) (α : Type) where
  shared : σ
  threads : List (Thread J Op Res α)

namespace Interleaving

/-! ## The thread that moved -/

section Moved

variable {α : Type*} {as : List α} {t t' : ℕ} {a a' x : α}

theorem set_of_getElem? (h : as[t]? = some a) : as.set t a = as := by
  obtain ⟨hlt, rfl⟩ := List.getElem?_eq_some_iff.1 h
  exact List.set_getElem_self hlt

theorem getElem?_set_cases (ht : as[t]? = some a) (h : (as.set t a')[t']? = some x) :
    t' = t ∧ x = a' ∨ t' ≠ t ∧ as[t']? = some x := by
  obtain ⟨hlt, -⟩ := List.getElem?_eq_some_iff.1 ht
  by_cases heq : t' = t
  · subst heq
    rw [List.getElem?_set_self hlt, Option.some.injEq] at h
    exact .inl ⟨rfl, h.symm⟩
  · rw [List.getElem?_set_ne (Ne.symm heq)] at h
    exact .inr ⟨heq, h⟩

theorem countP_set_add (p : α → Bool) (a' : α) : ∀ {as : List α} {t : ℕ}, as[t]? = some a →
    (as.set t a').countP p + (p a).toNat = as.countP p + (p a').toNat
  | b :: as, 0, h => by
    cases h
    cases ha : p a <;> cases ha' : p a' <;> simp [ha, ha']
  | b :: as, t + 1, h => by
    have ih := countP_set_add p a' (show as[t]? = some a from h)
    rw [List.set_cons_succ, List.countP_cons, List.countP_cons]
    omega

theorem countP_flatMap_set {β : Type} (p : β → Bool) (f : α → List β) (a' : α) :
    ∀ {as : List α} {t : ℕ}, as[t]? = some a →
      ((as.set t a').flatMap f).countP p + (f a).countP p =
        (as.flatMap f).countP p + (f a').countP p
  | b :: as, 0, h => by
    cases h
    simp only [List.set_cons_zero, List.flatMap_cons, List.countP_append]
    omega
  | b :: as, t + 1, h => by
    have ih := countP_flatMap_set p f a' (show as[t]? = some a from h)
    simp only [List.set_cons_succ, List.flatMap_cons, List.countP_append]
    omega

end Moved

/-! ## Steps -/

/-- A thread is started for a job, or thread `t` executes its next operation on input `i`. -/
inductive Move (J ι : Type)
  | spawn (job : J)
  | run (t : ℕ) (i : ι)

/-- An operation that was executed, with its result. -/
abbrev Event (Op : Type) (Res : Op → Type) := Σ c : Op, Res c

abbrev History (J ι Op : Type) (Res : Op → Type) := List (Move J ι × Option (Event Op Res))

variable {σ J ι ε Op : Type} {Res : Op → Type} {α : Type}

section Step

variable (handle : ι → σ → (c : Op) → Except ε (σ × Res c)) (program : ℕ → J → Program Op Res α)

/-- `none` is the error of a thread that has no operation to execute. -/
def step (p : Interleaving σ J Op Res α) : Move J ι →
    Except (Option ε) (Interleaving σ J Op Res α × Option (Event Op Res))
  | .spawn job => .ok (⟨p.shared, p.threads ++ [⟨job, program p.threads.length job⟩]⟩, none)
  | .run t i =>
    match p.threads[t]? with
    | some ⟨job, .call c next⟩ =>
      match handle i p.shared c with
      | .ok (s, b) => .ok (⟨s, p.threads.set t ⟨job, next b⟩⟩, some ⟨c, b⟩)
      | .error e => .error (some e)
    | _ => .error none

variable {handle program} {p p' : Interleaving σ J Op Res α} {o : Option (Event Op Res)}

theorem step_spawn (job : J) : step handle program p (.spawn job) =
    .ok (⟨p.shared, p.threads ++ [⟨job, program p.threads.length job⟩]⟩, none) := rfl

theorem step_run {t : ℕ} {i : ι} {job : J} {c : Op} {next : Res c → Program Op Res α} {s : σ}
    {b : Res c} (ht : p.threads[t]? = some ⟨job, .call c next⟩)
    (hc : handle i p.shared c = .ok (s, b)) : step handle program p (.run t i) =
      .ok (⟨s, p.threads.set t ⟨job, next b⟩⟩, some ⟨c, b⟩) := by
  simp only [step, ht, hc]

/-- What a step can do. -/
theorem step_cases {l : Move J ι} (h : step handle program p l = .ok (p', o)) :
    (∃ job, l = .spawn job ∧ o = none ∧
      p' = ⟨p.shared, p.threads ++ [⟨job, program p.threads.length job⟩]⟩) ∨
    ∃ t i job c next s b, l = .run t i ∧ p.threads[t]? = some ⟨job, .call c next⟩ ∧
      handle i p.shared c = .ok (s, b) ∧ o = some ⟨c, b⟩ ∧
        p' = ⟨s, p.threads.set t ⟨job, next b⟩⟩ := by
  rcases l with job | ⟨t, i⟩
  · cases h
    exact .inl ⟨job, rfl, rfl, rfl⟩
  · simp only [step] at h
    split at h
    next job c next ht =>
      split at h
      next s b hc =>
        cases h
        exact .inr ⟨t, i, job, c, next, s, b, rfl, ht, hc, rfl, rfl⟩
      next => cases h
    next => cases h

end Step

/-! ## Jobs -/

/-- The jobs threads were started for, the earliest first. -/
def jobs (h : History J ι Op Res) : List J :=
  h.filterMap fun e =>
    match e.1 with
    | .spawn job => some job
    | .run _ _ => none

theorem jobs_append (h₁ h₂ : History J ι Op Res) : jobs (h₁ ++ h₂) = jobs h₁ ++ jobs h₂ :=
  List.filterMap_append

theorem jobs_spawn (h : History J ι Op Res) (job : J) (o : Option (Event Op Res)) :
    jobs (h ++ [(.spawn job, o)]) = jobs h ++ [job] :=
  jobs_append h _

theorem jobs_run (h : History J ι Op Res) (t : ℕ) (i : ι) (o : Option (Event Op Res)) :
    jobs (h ++ [(.run t i, o)]) = jobs h := by
  rw [jobs_append]
  exact List.append_nil _

/-- A thread keeps its job as the run goes on. -/
theorem jobs_getElem? {h₁ : History J ι Op Res} {t : ℕ} {job : J} (ht : (jobs h₁)[t]? = some job)
    (h₂ : History J ι Op Res) : (jobs (h₁ ++ h₂))[t]? = some job := by
  obtain ⟨hlt, -⟩ := List.getElem?_eq_some_iff.1 ht
  rwa [jobs_append, List.getElem?_append_left hlt]

/-- Thread `t` has the job it was started for. -/
theorem reaches_jobs {handle : ι → σ → (c : Op) → Except ε (σ × Res c)}
    {program : ℕ → J → Program Op Res α} {P : Interleaving σ J Op Res α → Move J ι → Prop} {s₀ : σ}
    {h : History J ι Op Res} {p : Interleaving σ J Op Res α}
    (hr : Run.Reaches (step handle program) P ⟨s₀, []⟩ h p) :
    p.threads.map (·.job) = jobs h := by
  refine hr.invariant (I := fun h p => p.threads.map (·.job) = jobs h) ?_ ?_
  · rfl
  rintro h p l p' o hjobs - hs
  rcases step_cases hs with ⟨job, rfl, rfl, rfl⟩ | ⟨t, i, job, c, next, s, b, rfl, ht, -, rfl, rfl⟩
  · rw [jobs_spawn, ← hjobs, List.map_append, List.map_singleton]
  · have hjob : (p.threads.map (·.job))[t]? = some job := by
      rw [List.getElem?_map, ht, Option.map_some]
    rw [jobs_run, ← hjobs, List.map_set, set_of_getElem? hjob]

/-! ## One thread alone -/

section Alone

variable {handle : ι → σ → (c : Op) → Except ε (σ × Res c)}
  {program : ℕ → J → Program Op Res α} {after : Op → ι → ι}

/-- To let one thread go on to its end is one of the ways to go on. -/
theorem reaches_alone {prog : Program Op Res α} {i i' : ι} {s s' : σ} {a : α}
    (h : prog.alone handle after i s = .ok (a, i', s'))
    {P : Interleaving σ J Op Res α → Move J ι → Prop} (hP : ∀ p t i, P p (.run t i))
    {p₀ : Interleaving σ J Op Res α} {threads : List (Thread J Op Res α)}
    {hist : History J ι Op Res} (hr : Run.Reaches (step handle program) P p₀ hist ⟨s, threads⟩)
    {t : ℕ} {job : J} (ht : threads[t]? = some ⟨job, prog⟩) :
    ∃ more, Run.Reaches (step handle program) P p₀ (hist ++ more)
      ⟨s', threads.set t ⟨job, .ret a⟩⟩ := by
  obtain ⟨hlt, -⟩ := List.getElem?_eq_some_iff.1 ht
  induction prog generalizing i s threads hist with
  | ret b =>
    cases h
    rw [set_of_getElem? ht]
    exact ⟨[], by simpa using hr⟩
  | call c next ih =>
    rcases hc : handle i s c with e | ⟨s₁, b⟩
    · rw [Program.alone_call_error hc] at h
      cases h
    · rw [Program.alone_call hc] at h
      have hnext := hr.next (hP _ t i) (step_run ht hc)
      obtain ⟨more, hr'⟩ := ih b h hnext (List.getElem?_set_self hlt)
        (by rwa [List.length_set])
      rw [List.set_set, List.append_assoc] at hr'
      exact ⟨_, hr'⟩

end Alone

/-! ## Monitors of a run -/

section Monitors

variable {handle : ι → σ → (c : Op) → Except ε (σ × Res c)}
  {program : ℕ → J → Program Op Res α} {m : Monitor Op Res} {post : J → α → m.State → Prop}
  {init : ℕ → J → m.State}

/-- What a step makes of the monitor's states, one for each thread. -/
def advance (m : Monitor Op Res) (init : ℕ → J → m.State) (qs : List m.State) :
    Move J ι × Option (Event Op Res) → List m.State
  | (.spawn job, _) => qs ++ [init qs.length job]
  | (.run t _, some ⟨c, b⟩) =>
    match qs[t]? with
    | some q => qs.set t (m.next q c b)
    | none => qs
  | (.run _ _, none) => qs

/-- The monitor's states after a run. -/
def states (m : Monitor Op Res) (init : ℕ → J → m.State) (h : History J ι Op Res) :
    List m.State :=
  h.foldl (advance m init) []

theorem states_spawn (h : History J ι Op Res) (job : J) (o : Option (Event Op Res)) :
    states m init (h ++ [(.spawn job, o)]) =
      states m init h ++ [init (states m init h).length job] := by
  simp [states, advance]

theorem states_run {h : History J ι Op Res} {t : ℕ} {i : ι} {c : Op} {b : Res c} {q : m.State}
    (hq : (states m init h)[t]? = some q) :
    states m init (h ++ [(.run t i, some ⟨c, b⟩)]) = (states m init h).set t (m.next q c b) := by
  simp only [states] at hq
  simp [states, advance, hq]

/-- The rest of each thread's program obeys the monitor from the thread's state on. -/
def Obeyed (m : Monitor Op Res) (post : J → α → m.State → Prop)
    (threads : List (Thread J Op Res α)) (qs : List m.State) : Prop :=
  List.Forall₂ (fun th q => th.rest.Obeys m (post th.job) q) threads qs

theorem Obeyed.get {threads : List (Thread J Op Res α)} {qs : List m.State}
    (h : Obeyed m post threads qs) {t : ℕ} {th : Thread J Op Res α}
    (ht : threads[t]? = some th) :
    ∃ q, qs[t]? = some q ∧ th.rest.Obeys m (post th.job) q := by
  obtain ⟨hlt, rfl⟩ := List.getElem?_eq_some_iff.1 ht
  exact ⟨_, List.getElem?_eq_getElem (h.length_eq ▸ hlt), List.Forall₂.get h hlt _⟩

theorem Obeyed.thread {threads : List (Thread J Op Res α)} {qs : List m.State}
    (h : Obeyed m post threads qs) {t : ℕ} {q : m.State} (hq : qs[t]? = some q) :
    ∃ th, threads[t]? = some th ∧ th.rest.Obeys m (post th.job) q := by
  obtain ⟨hlt, rfl⟩ := List.getElem?_eq_some_iff.1 hq
  exact ⟨_, List.getElem?_eq_getElem (h.length_eq ▸ hlt), List.Forall₂.get h _ hlt⟩

theorem Obeyed.set {threads : List (Thread J Op Res α)} {qs : List m.State}
    (h : Obeyed m post threads qs) {th : Thread J Op Res α} {q : m.State}
    (hq : th.rest.Obeys m (post th.job) q) (t : ℕ) :
    Obeyed m post (threads.set t th) (qs.set t q) := by
  induction h generalizing t with
  | nil => exact .nil
  | cons hhead htail ih =>
    rcases t with _ | t
    · exact .cons hq htail
    · exact .cons hhead (ih t)

/-- When each program obeys the monitor, an invariant of the shared state and the monitor's states
holds after every run if what the monitor permits keeps it. -/
theorem reaches_obeyed {P : Interleaving σ J Op Res α → Move J ι → Prop} {s₀ : σ}
    {I : History J ι Op Res → List m.State → σ → Prop}
    (obeys : ∀ t job, (program t job).Obeys m (post job) (init t job))
    (start : I [] [] s₀)
    (spawn : ∀ h qs p job, I h qs p.shared → Obeyed m post p.threads qs →
      p.threads.map (·.job) = jobs h → P p (.spawn job) → I (h ++ [(.spawn job, none)])
        (qs ++ [init qs.length job]) p.shared)
    (run : ∀ h qs p t i c s b q, I h qs p.shared → qs[t]? = some q → m.pre q c →
      P p (.run t i) → handle i p.shared c = .ok (s, b) →
      I (h ++ [(.run t i, some ⟨c, b⟩)]) (qs.set t (m.next q c b)) s)
    {h : History J ι Op Res} {p : Interleaving σ J Op Res α}
    (hr : Run.Reaches (step handle program) P ⟨s₀, []⟩ h p) :
    I h (states m init h) p.shared ∧ Obeyed m post p.threads (states m init h) := by
  induction hr with
  | start => exact ⟨start, .nil⟩
  | @next h p l p' o hr hP hs ih =>
    obtain ⟨hI, hobeyed⟩ := ih
    rcases step_cases hs with
      ⟨job, rfl, rfl, rfl⟩ | ⟨t, i, job, c, next, s, b, rfl, ht, hc, rfl, rfl⟩
    · rw [states_spawn]
      refine ⟨spawn h _ p job hI hobeyed (reaches_jobs hr) hP, ?_⟩
      rw [← hobeyed.length_eq]
      exact List.rel_append hobeyed (.cons (obeys _ job) .nil)
    · obtain ⟨q, hq, hpre, hnext⟩ := hobeyed.get ht
      rw [states_run hq]
      exact ⟨run h _ p t i c s b q hI hq hpre hP hc, hobeyed.set (hnext b) t⟩

/-- Every operation of a run was one that the monitor permitted to its thread. -/
theorem reaches_permitted {P : Interleaving σ J Op Res α → Move J ι → Prop} {s₀ : σ}
    (obeys : ∀ t job, (program t job).Obeys m (post job) (init t job))
    {h : History J ι Op Res} {p : Interleaving σ J Op Res α}
    (hr : Run.Reaches (step handle program) P ⟨s₀, []⟩ h p) {h₁ h₂ : History J ι Op Res} {t : ℕ}
    {i : ι} {c : Op} {b : Res c} (hh : h = h₁ ++ (.run t i, some ⟨c, b⟩) :: h₂) :
    ∃ q, (states m init h₁)[t]? = some q ∧ m.pre q c := by
  subst hh
  obtain ⟨p₁, h1, h2⟩ := hr.split
  obtain ⟨p₂, -, hs, -⟩ := h2.head
  obtain ⟨-, hobeyed⟩ := reaches_obeyed (I := fun _ _ _ => True) obeys trivial
    (fun _ _ _ _ _ _ _ _ => trivial) (fun _ _ _ _ _ _ _ _ _ _ _ _ _ _ => trivial) h1
  rcases step_cases hs with ⟨_, h, -⟩ | ⟨_, _, job, _, next, s, _, heq, ht, hc, ho, -⟩
  · cases h
  · cases heq
    cases ho
    obtain ⟨q, hq, hpre, -⟩ := hobeyed.get ht
    exact ⟨q, hq, hpre⟩

end Monitors

end Interleaving
