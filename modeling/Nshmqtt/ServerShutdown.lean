import Nshmqtt.AcceptLoop

/-!
# The end of `run`

Once a signal came or `poll` failed, `run` waits in `shutdown` until the workers have handled what
is queued and have ended.  Two things can come in between.  A worker may wake up from `wait`
although nobody notified it.  And a call of the handler may never return: `write_all` sends on a
socket without a timeout, so a client that stops reading a large answer keeps its worker.

* `rank_event` : every step lowers a rank, apart from the spurious wakeups;
* `handling_event` : nobody else ends a call of the handler;
* `shutdown_completes` : so `run` returns, unless a call of the handler does not.
-/

namespace Nshmqtt

open TransitionRuns Tally

namespace AcceptLoop

inductive Event (κ Fd : Type*)
  | regular (a : Action κ Fd)
  /-- A worker wakes up although nobody notified it. -/
  | spurious (w : κ)

def Event.isRegular {κ Fd : Type*} : Event κ Fd → Bool
  | .regular _ => true
  | .spurious _ => false

/-- In a call of the handler for one of the connections with which it does not return. -/
def isStalled {Fd : Type*} (stuck : Fd → Bool) : ThreadPool.Worker Fd → Bool
  | .handling fd => stuck fd
  | _ => false

variable {κ Fd : Type*} [DecidableEq κ] [Fintype κ]

/-- A step of `run` and its workers, if it is not the end of a call that does not return. -/
def regularStep (cfg : Config) (stuck : Fd → Bool) (s : State κ Fd) (a : Action κ Fd) :
    Option (State κ Fd) :=
  match a with
  | .work w => if isStalled stuck (s.pool.worker w) then none else step cfg s (.work w)
  | other => step cfg s other

def eventStep (cfg : Config) (stuck : Fd → Bool) (s : State κ Fd) :
    Event κ Fd → Option (State κ Fd)
  | .regular a => regularStep cfg stuck s a
  | .spurious w =>
      (ThreadPool.spuriousStep s.pool w).map fun pool => { s with pool := pool }

/-- The loop was left. -/
def Main.isPastLoop : Main → Bool
  | .stopping _ | .returned _ => true
  | _ => false

/-- A worker is in a call of the handler that does not return. -/
def Stalled (stuck : Fd → Bool) (s : State κ Fd) : Prop :=
  ∃ w, isStalled stuck (s.pool.worker w) = true

variable {cfg : Config} {stuck : Fd → Bool} {s t : State κ Fd}

/-- A regular step is one of the loop, and of no stalled worker. -/
theorem step_of_regularStep {a : Action κ Fd} (h : regularStep cfg stuck s a = some t) :
    step cfg s a = some t ∧ ∀ w, a = .work w → isStalled stuck (s.pool.worker w) = false := by
  cases a with
  | work w =>
      simp only [regularStep] at h
      split_ifs at h with hstalled
      refine ⟨h, fun v hv => ?_⟩
      cases hv
      exact Bool.eq_false_iff.mpr hstalled
  | poll | accept | submit | signals | textfile | shutdown => exact ⟨h, fun w hw => by cases hw⟩

/-- Only its own step ends a call of the handler. -/
theorem worker_handling {pool next : ThreadPool.State κ Unit Fd}
    {a : ThreadPool.Action κ Unit Fd} {w : κ} {fd : Fd} (hphase : pool.worker w = .handling fd)
    (hother : a ≠ .work w) (h : ThreadPool.step pool a = some next) :
    next.worker w = .handling fd := by
  have hmoved : ∀ (v : κ) (phase : ThreadPool.Worker Fd), v ≠ w →
      Function.update pool.worker v phase w = .handling fd := fun v phase hne =>
    (Function.update_of_ne hne.symm ..).trans hphase
  cases a with
  | work v =>
      have hne : v ≠ w := fun heq => hother (heq ▸ rfl)
      simp only [ThreadPool.step, ThreadPool.workerStep] at h
      split at h <;> try split at h
      all_goals cases h <;> exact hmoved v _ hne
  | call i x =>
      simp only [ThreadPool.step] at h
      split at h <;> cases h
      exact hphase
  | submit i chosen =>
      simp only [ThreadPool.step, ThreadPool.submitterStep] at h
      split at h
      · cases h
      · split_ifs at h
        cases h
        exact hphase
      · split_ifs at h <;> cases h <;> exact hphase
      · obtain ⟨notified, hnotified, rfl⟩ := Option.map_eq_some_iff.mp h
        unfold ThreadPool.State.notifyOne at hnotified
        split_ifs at hnotified with hblocked hnone
        · cases hnotified
          refine hmoved chosen _ fun heq => ?_
          rw [heq, hphase] at hblocked
          cases hblocked
        · cases hnotified
          exact hphase
  | shutdown =>
      simp only [ThreadPool.step, ThreadPool.shutdownStep] at h
      split at h <;> try split at h
      all_goals cases h
      all_goals simp only [hphase, ThreadPool.Worker.wake]

/-- A step of the main thread or of another worker. -/
theorem handling_step {a : Action κ Fd} {w : κ} {fd : Fd}
    (hphase : s.pool.worker w = .handling fd) (hother : a ≠ .work w)
    (h : step cfg s a = some t) : t.pool.worker w = .handling fd := by
  cases a with
  | poll now result =>
      simp only [step, pollStep] at h
      split at h
      · split_ifs at h
        cases result <;> cases h <;> exact hphase
      · cases h
  | accept result =>
      simp only [step, acceptStep] at h
      split at h
      · cases result with
        | accepted x =>
            obtain ⟨next, hnext, rfl⟩ := Option.map_eq_some_iff.mp h
            exact worker_handling hphase (by simp) hnext
        | interrupted | wouldBlock | failed =>
            cases h
            exact hphase
      · cases h
  | submit chosen =>
      simp only [step, submitStep] at h
      split at h
      · obtain ⟨next, hnext, ht⟩ := Option.map_eq_some_iff.mp h
        have hkept := worker_handling hphase (by simp) hnext
        split at ht <;> subst ht <;> exact hkept
      · cases h
  | signals read =>
      simp only [step] at h
      split at h <;> cases h
      exact hphase
  | textfile began ended =>
      simp only [step, textfileStep] at h
      split at h
      · split_ifs at h <;> cases h <;> exact hphase
      · cases h
  | shutdown =>
      simp only [step, shutdownStep] at h
      split at h
      · obtain ⟨next, hnext, ht⟩ := Option.map_eq_some_iff.mp h
        have hkept := worker_handling hphase (by simp) hnext
        split at ht <;> subst ht <;> exact hkept
      · cases h
  | work v =>
      obtain ⟨next, hnext, rfl⟩ := Option.map_eq_some_iff.mp h
      exact worker_handling hphase (fun heq => hother (by cases heq; rfl)) hnext

/-- **A call that does not return** is there after every step. -/
theorem stalled_event {e : Event κ Fd} (h : Stalled stuck s)
    (hstep : eventStep cfg stuck s e = some t) : Stalled stuck t := by
  obtain ⟨w, hw⟩ := h
  have hphase : ∃ fd, s.pool.worker w = .handling fd := by
    unfold isStalled at hw
    split at hw
    · exact ⟨_, ‹_›⟩
    · cases hw
  obtain ⟨fd, hphase⟩ := hphase
  have hafter : t.pool.worker w = .handling fd := by
    cases e with
    | regular a =>
        obtain ⟨hregular, hstalled⟩ := step_of_regularStep hstep
        refine handling_step hphase (fun heq => ?_) hregular
        rw [hstalled w heq] at hw
        cases hw
    | spurious v =>
        obtain ⟨next, hnext, rfl⟩ := Option.map_eq_some_iff.mp hstep
        obtain ⟨hblocked, rfl⟩ := ThreadPool.spuriousStep_cases hnext
        have hne : w ≠ v := by
          intro heq
          rw [← heq, hphase] at hblocked
          cases hblocked
        exact (Function.update_of_ne hne ..).trans hphase
  exact ⟨w, by rwa [hafter, ← hphase]⟩

section

variable [DecidableEq Fd]

/-- Spurious wakeups change nothing that the loop relies on. -/
theorem loopInv_event {e : Event κ Fd} (h : LoopInv s) (hstep : eventStep cfg stuck s e = some t) :
    LoopInv t := by
  cases e with
  | regular a => exact loopInv_step h (step_of_regularStep hstep).1
  | spurious w =>
      obtain ⟨next, hnext, rfl⟩ := Option.map_eq_some_iff.mp hstep
      have hinv := ThreadPool.inv_spurious h.pool.inv hnext
      have howned := ThreadPool.owned_spurious h.pool.owned hnext
      have haccounts := ThreadPool.accounts_spurious h.pool.accounts hnext
      obtain ⟨-, rfl⟩ := ThreadPool.spuriousStep_cases hnext
      exact ⟨⟨hinv, howned, haccounts, h.pool.lined.order, h.pool.lined.closed⟩,
        ⟨h.tied.submitting, h.tied.stopping, h.tied.returned⟩, h.submitted⟩

/-- **Whole runs** keep what holds of the loop, with spurious wakeups as well. -/
theorem loopInv_of_events {now : Int} {events : List (Event κ Fd)}
    (hrun : runFrom (eventStep cfg stuck) (start now) events = some t) : LoopInv t :=
  invariant_of_run (fun _ _ _ h hstep => loopInv_event h hstep) (loopInv_start now) hrun

omit [DecidableEq κ] in
/-- Behind the loop nobody submits. -/
theorem submitter_idle (h : LoopInv s) (hpast : s.main.isPastLoop = true) :
    s.pool.submitter () = .idle := by
  by_contra hne
  obtain ⟨ready, signalled, hmain⟩ := h.tied.submitting hne
  rw [hmain] at hpast
  cases hpast

/-- After the loop only `shutdown` and the workers take steps, and each has less before it. -/
theorem rank_step {a : Action κ Fd} (h : LoopInv s) (hpast : s.main.isPastLoop = true)
    (hstep : step cfg s a = some t) :
    t.pool.rank < s.pool.rank ∧ t.main.isPastLoop = true := by
  have hidle := submitter_idle h hpast
  have hlower : ∀ {a : ThreadPool.Action κ Unit Fd} {next : ThreadPool.State κ Unit Fd},
      ThreadPool.step s.pool a = some next → next.submitter = s.pool.submitter →
      next.rank < s.pool.rank := fun hnext hcalls =>
    ThreadPool.rank_transition h.pool.owned (fun _ => hidle) hcalls
      (ThreadPool.transition_of_step hnext)
  cases a with
  | work w =>
      obtain ⟨next, hnext, rfl⟩ := Option.map_eq_some_iff.mp hstep
      exact ⟨hlower hnext (workerStep_frame hnext).1, hpast⟩
  | shutdown =>
      simp only [step, shutdownStep] at hstep
      split at hstep
      · obtain ⟨next, hnext, ht⟩ := Option.map_eq_some_iff.mp hstep
        split at ht <;> subst ht
        · exact ⟨hlower hnext (shutdownStep_frame hnext).1, rfl⟩
        · exact ⟨hlower hnext (shutdownStep_frame hnext).1, hpast⟩
      · cases hstep
  | poll | accept | submit | signals | textfile =>
      cases hmain : s.main <;>
        simp_all [step, pollStep, acceptStep, submitStep, textfileStep, Main.isPastLoop]

/-- **One step after the loop** lowers the rank, and a spurious wakeup raises it by three. -/
theorem rank_event {e : Event κ Fd} (h : LoopInv s) (hpast : s.main.isPastLoop = true)
    (hstep : eventStep cfg stuck s e = some t) :
    (e.isRegular = true → t.pool.rank < s.pool.rank) ∧
      (e.isRegular = false → t.pool.rank ≤ s.pool.rank + 3) ∧ t.main.isPastLoop = true := by
  cases e with
  | regular a =>
      obtain ⟨hlower, hpast'⟩ := rank_step h hpast (step_of_regularStep hstep).1
      exact ⟨fun _ => hlower, fun hfalse => absurd hfalse.symm Bool.false_ne_true, hpast'⟩
  | spurious w =>
      obtain ⟨next, hnext, rfl⟩ := Option.map_eq_some_iff.mp hstep
      exact ⟨fun hfalse => absurd hfalse Bool.false_ne_true,
        fun _ => (ThreadPool.rank_spurious hnext).le, hpast⟩

/-- Until `run` has returned some step is possible, if no call is stalled. -/
theorem exists_regularStep (h : LoopInv s) {reason : StopReason}
    (hmain : s.main = .stopping reason) (hstalled : ¬ Stalled stuck s) :
    ∃ (a : Action κ Fd) (t : State κ Fd), regularStep cfg stuck s a = some t := by
  have hidle := submitter_idle h (by rw [hmain]; rfl)
  have hshutdown : s.pool.shutdown ≠ .returned := by
    intro heq
    obtain ⟨_, hreturned⟩ := h.tied.returned.mp heq
    rw [hmain] at hreturned
    cases hreturned
  have hwork : ∀ w next, ThreadPool.workerStep s.pool w = some next →
      ∃ (a : Action κ Fd) (t : State κ Fd), regularStep cfg stuck s a = some t := by
    intro w next hnext
    have hw : isStalled stuck (s.pool.worker w) = false :=
      Bool.eq_false_iff.mpr fun hw => hstalled ⟨w, hw⟩
    refine ⟨.work w, Option.isSome_iff_exists.mp ?_⟩
    simp only [regularStep, hw, Bool.false_eq_true, if_false, step, ThreadPool.step, hnext,
      Option.map_some, Option.isSome_some]
  obtain ⟨next, hnext⟩ | ⟨w, next, -, hnext⟩ | ⟨w, fd, hphase⟩ :=
    ThreadPool.exists_step h.pool.inv h.pool.owned (fun _ => hidle) hshutdown
  · refine ⟨.shutdown, Option.isSome_iff_exists.mp ?_⟩
    simp only [regularStep, step, shutdownStep, hmain, ThreadPool.step, hnext, Option.map_some,
      Option.isSome_some]
  · exact hwork w next hnext
  · have hreturns : (ThreadPool.workerStep s.pool w).isSome = true := by
      simp only [ThreadPool.workerStep, hphase, Option.isSome_some]
    obtain ⟨next, hnext⟩ := Option.isSome_iff_exists.mp hreturns
    exact hwork w next hnext

omit [DecidableEq κ] in
/-- When `run` has returned, all its workers have ended. -/
theorem not_stalled_of_returned (h : LoopInv s) {reason : StopReason}
    (hmain : s.main = .returned reason) : ¬ Stalled stuck s := by
  intro hstalled
  obtain ⟨w, hw⟩ := hstalled
  rw [h.pool.inv.joined (h.tied.returned.mpr ⟨reason, hmain⟩) w] at hw
  cases hw

/-- **Once the loop was left, `run` returns unless a call of the handler does not.**  What follows
cannot go on for ever, apart from spurious wakeups; when it can go no further, `run` has returned
exactly if no such call is under way; and while one is, it never returns. -/
theorem shutdown_completes {now : Int} {first rest : List (Event κ Fd)} {reason : StopReason}
    (hfirst : runFrom (eventStep cfg stuck) (start now) first = some s)
    (hmain : s.main = .stopping reason)
    (hrest : runFrom (eventStep cfg stuck) s rest = some t) :
    rest.countP Event.isRegular ≤ s.pool.rank + 3 * rest.countP (fun e => !e.isRegular) ∧
      ((∀ a, regularStep cfg stuck t a = none) →
        ((∃ reason, t.main = .returned reason) ↔ ¬ Stalled stuck t)) ∧
      (Stalled stuck t → ∀ later u, runFrom (eventStep cfg stuck) t later = some u →
        ∀ reason, u.main ≠ .returned reason) := by
  have hs : LoopInv s ∧ s.main.isPastLoop = true :=
    ⟨loopInv_of_events hfirst, by rw [hmain]; rfl⟩
  have preserved : ∀ s (e : Event κ Fd) t, LoopInv s ∧ s.main.isPastLoop = true →
      eventStep cfg stuck s e = some t → LoopInv t ∧ t.main.isPastLoop = true :=
    fun s e t h hstep => ⟨loopInv_event h.1 hstep, (rank_event h.1 h.2 hstep).2.2⟩
  have hcount := countP_add_rank_le (fun s : State κ Fd => s.pool.rank) Event.isRegular 3 preserved
    (fun s e t h hstep => (rank_event h.1 h.2 hstep).1)
    (fun s e t h hstep => (rank_event h.1 h.2 hstep).2.1) hs hrest
  obtain ⟨hinv, hpast⟩ := invariant_of_run preserved hs hrest
  refine ⟨(Nat.le_add_right _ _).trans hcount, fun hend => ⟨?_, fun hstalled => ?_⟩, ?_⟩
  · intro hreturned
    obtain ⟨reason, hreturned⟩ := hreturned
    exact not_stalled_of_returned hinv hreturned
  · cases hphase : t.main with
    | stopping reason =>
        obtain ⟨a, u, hu⟩ : ∃ (a : Action κ Fd) (u : State κ Fd),
            regularStep cfg stuck t a = some u := exists_regularStep hinv hphase hstalled
        rw [hend a] at hu
        cases hu
    | returned reason => exact ⟨reason, rfl⟩
    | polling | accepting | submitting | signals | textfile =>
        rw [hphase] at hpast
        cases hpast
  · intro hstalled later u hlater reason hreturned
    have kept : ∀ s (e : Event κ Fd) t, LoopInv s ∧ Stalled stuck s →
        eventStep cfg stuck s e = some t → LoopInv t ∧ Stalled stuck t :=
      fun _ _ _ h hstep => ⟨loopInv_event h.1 hstep, stalled_event h.2 hstep⟩
    obtain ⟨hlast, hstuck⟩ := invariant_of_run kept ⟨hinv, hstalled⟩ hlater
    exact not_stalled_of_returned hlast hreturned hstuck

/-- Two workers have the connections `7` and `8`, the first is done, and `SIGTERM` comes. -/
def stoppedRun : List (Event Bool Nat) :=
  [.work false, .work false, .work false, .work true, .work true, .work true,
    .poll 5 (.ready [true] false), .accept (.accepted 7), .submit false, .submit false,
    .submit false, .work false, .work false, .work false, .accept (.accepted 8), .submit true,
    .submit true, .submit true, .work true, .work true, .work true, .accept .wouldBlock,
    .signals none, .textfile 6 8, .work false, .work false, .work false, .work false,
    .poll 9 (.ready [false] true), .signals (some 15), .textfile 10 10].map .regular

/-- The first worker wakes up once more, and ends when it is notified. -/
def drainedRun : List (Event Bool Nat) :=
  .spurious false :: [.work false, .work false, .work false, .shutdown, .shutdown, .shutdown,
    .shutdown, .work false, .work false, .work false].map .regular

/-- The second worker comes back from the handler, ends as well, and `run` returns. -/
def returnedRun : List (Event Bool Nat) :=
  drainedRun ++ [.work true, .work true, .work true, .work true, .shutdown].map .regular

/-- The client of `8` reads on, or it never does. -/
theorem shutdown_completes_stoppedRun :
    (∃ s t : State Bool Nat, (∃ reason, t.main = .returned reason) ∧
      returnedRun.countP Event.isRegular ≤
        s.pool.rank + 3 * returnedRun.countP (fun e => !e.isRegular) ∧
      ((∀ a, regularStep withTextfile (fun _ => false) t a = none) →
        ((∃ reason, t.main = .returned reason) ↔ ¬ Stalled (fun _ => false) t)) ∧
      (Stalled (fun _ => false) t → ∀ later u,
        runFrom (eventStep withTextfile fun _ => false) t later = some u →
          ∀ reason, u.main ≠ .returned reason)) ∧
    ∃ t : State Bool Nat, t.pool.worker true = .handling 8 ∧
      (∀ a, regularStep withTextfile (· == 8) t a = none) ∧
      ∀ later u, runFrom (eventStep withTextfile (· == 8)) t later = some u →
        ∀ reason, u.main ≠ .returned reason := by
  constructor
  · obtain ⟨s, hfirst, hs⟩ := exists_of_runFrom (eventStep withTextfile fun _ => false) (start 5)
      stoppedRun (fun s => s.main = .stopping .signal ∧
        (runFrom (eventStep withTextfile fun _ => false) s returnedRun).any fun t =>
          t.main = .returned .signal) (by decide +kernel)
    obtain ⟨hmain, hmore⟩ := of_decide_eq_true hs
    obtain ⟨t, hrest, ht⟩ := exists_of_runFrom _ s _ _ hmore
    exact ⟨s, t, ⟨_, of_decide_eq_true ht⟩, shutdown_completes hfirst hmain hrest⟩
  · obtain ⟨s, hfirst, hs⟩ := exists_of_runFrom (eventStep withTextfile (· == 8)) (start 5)
      stoppedRun (fun s => s.main = .stopping .signal ∧
        (runFrom (eventStep withTextfile (· == 8)) s drainedRun).any fun t =>
          t.main = .stopping .signal ∧ t.pool.shutdown = .joining ∧
            t.pool.worker false = .exited ∧ t.pool.worker true = .handling 8) (by decide +kernel)
    obtain ⟨hmain, hmore⟩ := of_decide_eq_true hs
    obtain ⟨t, hrest, ht⟩ := exists_of_runFrom _ s _ _ hmore
    obtain ⟨hstopping, hjoining, hexited, hhandling⟩ := of_decide_eq_true ht
    have hstalled : Stalled (· == 8) t := ⟨true, by rw [hhandling]; rfl⟩
    refine ⟨t, hhandling, fun a => ?_,
      (shutdown_completes hfirst hmain hrest).2.2 hstalled⟩
    cases a with
    | work w =>
        cases w with
        | false =>
            simp [regularStep, isStalled, step, ThreadPool.step, ThreadPool.workerStep, hexited]
        | true => simp [regularStep, isStalled, hhandling]
    | shutdown =>
        simp [regularStep, step, shutdownStep, hstopping, ThreadPool.step,
          ThreadPool.shutdownStep, hjoining, hhandling, ThreadPool.Worker.isExited]
    | poll | accept | submit | signals | textfile =>
        simp [regularStep, step, pollStep, acceptStep, submitStep, textfileStep, hstopping]

end

end AcceptLoop

end Nshmqtt
