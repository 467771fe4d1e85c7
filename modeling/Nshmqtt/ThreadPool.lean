import Nshmqtt.Tally
import Nshmqtt.TransitionRuns
import Mathlib.Logic.Function.Basic

/-!
# The thread pool

`thread_pool.cpp`: `submit` queues a connection for the workers, `shutdown`
lets them finish what is queued.  The mutex has an owner; `wait` tests its
predicate with the mutex and otherwise releases it and blocks in one step, and a
notification reaches only a worker that is blocked at that moment.

The flag is set with the mutex held, so it cannot change between a worker's test
and its blocking.  Hence no notification is lost, and every connection that was
submitted is handled once or closed once.

Spurious wakeups of `wait` are left out here; they are in `PoolDrain`.  A worker whose call of the
handler never returns is one that takes no further step.
-/

namespace Nshmqtt

open TransitionRuns Tally

namespace ThreadPool

/-- The point a worker has reached. -/
inductive Worker (Fd : Type*)
  /-- About to take the mutex. -/
  | locking
  /-- With the mutex, about to test the predicate of `wait`. -/
  | testing
  /-- With the mutex, the predicate was false, about to release and block. -/
  | blocking
  | blocked
  /-- Notified, about to take the mutex again. -/
  | woken
  /-- With the mutex, the predicate was true. -/
  | serving
  /-- Without the mutex, in the handler. -/
  | handling (fd : Fd)
  | exited
  deriving DecidableEq

/-- The point a caller of `submit` has reached. -/
inductive Submitter (Fd : Type*)
  | idle
  /-- About to take the mutex. -/
  | entering (fd : Fd)
  /-- With the mutex, taken when `stop_` was `late`. -/
  | holding (fd : Fd) (late : Bool)
  /-- Without the mutex, about to notify. -/
  | pushed
  deriving DecidableEq

/-- The point `shutdown` has reached. -/
inductive Shutdown
  | idle
  /-- About to take the mutex. -/
  | entering
  /-- With the mutex. -/
  | holding
  /-- `stop_` is set and the mutex released. -/
  | flagged
  /-- `notify_all` is issued; in `join`. -/
  | joining
  | returned
  deriving DecidableEq

/-- Who may own the mutex. -/
inductive Party (κ ι : Type*)
  | worker (w : κ)
  | submitter (i : ι)
  | shutdown
  deriving DecidableEq

structure State (κ ι Fd : Type*) where
  stop : Bool
  queue : List Fd
  owner : Option (Party κ ι)
  worker : κ → Worker Fd
  submitter : ι → Submitter Fd
  shutdown : Shutdown
  /-- The arguments of the calls of `submit`. -/
  submitted : List Fd
  /-- What was pushed, in order. -/
  accepted : List Fd
  /-- What `submit` closed, with `stop_` as it was when it took the mutex. -/
  closed : List (Fd × Bool)
  /-- What was popped, in order. -/
  taken : List Fd
  /-- What the handler was called with and has finished. -/
  handled : List Fd

inductive Action (κ ι Fd : Type*)
  /-- The next step of a worker. -/
  | work (w : κ)
  /-- `submit` is called. -/
  | call (i : ι) (fd : Fd)
  /-- The next step of a submitter; if it notifies, the worker that is woken. -/
  | submit (i : ι) (chosen : κ)
  /-- The next step of `shutdown`. -/
  | shutdown
  deriving DecidableEq

variable {κ ι Fd : Type*}

def Worker.isBlocked : Worker Fd → Bool
  | .blocked => true
  | _ => false

def Worker.isExited : Worker Fd → Bool
  | .exited => true
  | _ => false

def Worker.wake : Worker Fd → Worker Fd
  | .blocked => .woken
  | other => other

variable [DecidableEq κ] [DecidableEq ι]

def State.moveWorker (s : State κ ι Fd) (w : κ) (next : Worker Fd) : State κ ι Fd :=
  { s with worker := Function.update s.worker w next }

def State.moveSubmitter (s : State κ ι Fd) (i : ι) (next : Submitter Fd) : State κ ι Fd :=
  { s with submitter := Function.update s.submitter i next }

def workerStep (s : State κ ι Fd) (w : κ) : Option (State κ ι Fd) :=
  match s.worker w with
  | .locking =>
      if s.owner.isNone then some ({ s with owner := some (.worker w) }.moveWorker w .testing)
      else none
  | .testing =>
      some (s.moveWorker w (if s.stop || !s.queue.isEmpty then .serving else .blocking))
  | .blocking => some ({ s with owner := none }.moveWorker w .blocked)
  | .blocked => none
  | .woken =>
      if s.owner.isNone then some ({ s with owner := some (.worker w) }.moveWorker w .testing)
      else none
  | .serving =>
      match s.queue with
      | [] => some ({ s with owner := none }.moveWorker w (if s.stop then .exited else .locking))
      | fd :: rest =>
          some ({ s with owner := none, queue := rest, taken := s.taken ++ [fd] }.moveWorker w
            (.handling fd))
  | .handling fd => some ({ s with handled := s.handled ++ [fd] }.moveWorker w .locking)
  | .exited => none

variable [Fintype κ]

/-- `notify_one`: a blocked worker is woken if there is one. -/
def State.notifyOne (s : State κ ι Fd) (chosen : κ) : Option (State κ ι Fd) :=
  if (s.worker chosen).isBlocked then some (s.moveWorker chosen .woken)
  else if ∀ w, (s.worker w).isBlocked = false then some s
  else none

def submitterStep (s : State κ ι Fd) (i : ι) (chosen : κ) : Option (State κ ι Fd) :=
  match s.submitter i with
  | .idle => none
  | .entering fd =>
      if s.owner.isNone then
        some ({ s with owner := some (.submitter i) }.moveSubmitter i
          (.holding fd s.stop))
      else none
  | .holding fd late =>
      if s.stop then
        some ({ s with owner := none, closed := s.closed ++ [(fd, late)] }.moveSubmitter i .idle)
      else
        some ({ s with
          owner := none
          queue := s.queue ++ [fd]
          accepted := s.accepted ++ [fd] }.moveSubmitter i .pushed)
  | .pushed => (s.notifyOne chosen).map fun t => t.moveSubmitter i .idle

def shutdownStep (s : State κ ι Fd) : Option (State κ ι Fd) :=
  match s.shutdown with
  | .idle => some { s with shutdown := .entering }
  | .entering =>
      if s.owner.isNone then some { s with owner := some .shutdown, shutdown := .holding }
      else none
  | .holding =>
      if s.stop then some { s with owner := none, shutdown := .returned }
      else some { s with owner := none, stop := true, shutdown := .flagged }
  | .flagged => some { s with worker := fun w => (s.worker w).wake, shutdown := .joining }
  | .joining =>
      if ∀ w, (s.worker w).isExited = true then some { s with shutdown := .returned } else none
  | .returned => none

def step (s : State κ ι Fd) : Action κ ι Fd → Option (State κ ι Fd)
  | .work w => workerStep s w
  | .call i fd =>
      match s.submitter i with
      | .idle => some ({ s with submitted := s.submitted ++ [fd] }.moveSubmitter i (.entering fd))
      | _ => none
  | .submit i chosen => submitterStep s i chosen
  | .shutdown => shutdownStep s

/-- The workers have just been started. -/
def start (κ ι Fd : Type*) : State κ ι Fd where
  stop := false
  queue := []
  owner := none
  worker _ := .locking
  submitter _ := .idle
  shutdown := .idle
  submitted := []
  accepted := []
  closed := []
  taken := []
  handled := []

/-- The transitions, with the tests that allow them. -/
inductive Transition (s : State κ ι Fd) : State κ ι Fd → Prop
  | lock (w : κ) (phase : s.worker w = .locking ∨ s.worker w = .woken)
      (free : s.owner = none) :
      Transition s ({ s with owner := some (.worker w) }.moveWorker w .testing)
  | ready (w : κ) (phase : s.worker w = .testing) (test : s.stop = true ∨ s.queue ≠ []) :
      Transition s (s.moveWorker w .serving)
  | unready (w : κ) (phase : s.worker w = .testing) (running : s.stop = false)
      (empty : s.queue = []) : Transition s (s.moveWorker w .blocking)
  | block (w : κ) (phase : s.worker w = .blocking) :
      Transition s ({ s with owner := none }.moveWorker w .blocked)
  | exit (w : κ) (phase : s.worker w = .serving) (stopped : s.stop = true)
      (empty : s.queue = []) : Transition s ({ s with owner := none }.moveWorker w .exited)
  | again (w : κ) (phase : s.worker w = .serving) (running : s.stop = false)
      (empty : s.queue = []) : Transition s ({ s with owner := none }.moveWorker w .locking)
  | pop (w : κ) (fd : Fd) (rest : List Fd) (phase : s.worker w = .serving)
      (front : s.queue = fd :: rest) :
      Transition s ({ s with owner := none, queue := rest, taken := s.taken ++ [fd] }.moveWorker w
        (.handling fd))
  | handle (w : κ) (fd : Fd) (phase : s.worker w = .handling fd) :
      Transition s ({ s with handled := s.handled ++ [fd] }.moveWorker w .locking)
  | call (i : ι) (fd : Fd) (phase : s.submitter i = .idle) :
      Transition s ({ s with submitted := s.submitted ++ [fd] }.moveSubmitter i (.entering fd))
  | enter (i : ι) (fd : Fd) (phase : s.submitter i = .entering fd) (free : s.owner = none) :
      Transition s ({ s with owner := some (.submitter i) }.moveSubmitter i
        (.holding fd s.stop))
  | close (i : ι) (fd : Fd) (late : Bool) (phase : s.submitter i = .holding fd late)
      (stopped : s.stop = true) :
      Transition s ({ s with owner := none, closed := s.closed ++ [(fd, late)] }.moveSubmitter i
        .idle)
  | push (i : ι) (fd : Fd) (late : Bool) (phase : s.submitter i = .holding fd late)
      (running : s.stop = false) :
      Transition s ({ s with
        owner := none
        queue := s.queue ++ [fd]
        accepted := s.accepted ++ [fd] }.moveSubmitter i .pushed)
  | notify (i : ι) (chosen : κ) (phase : s.submitter i = .pushed)
      (blocked : s.worker chosen = .blocked) :
      Transition s ((s.moveWorker chosen .woken).moveSubmitter i .idle)
  | notifyNone (i : ι) (phase : s.submitter i = .pushed) (unblocked : ∀ w, s.worker w ≠ .blocked) :
      Transition s (s.moveSubmitter i .idle)
  | begin (phase : s.shutdown = .idle) : Transition s { s with shutdown := .entering }
  | acquire (phase : s.shutdown = .entering) (free : s.owner = none) :
      Transition s { s with owner := some .shutdown, shutdown := .holding }
  | repeated (phase : s.shutdown = .holding) (stopped : s.stop = true) :
      Transition s { s with owner := none, shutdown := .returned }
  | set (phase : s.shutdown = .holding) (running : s.stop = false) :
      Transition s { s with owner := none, stop := true, shutdown := .flagged }
  | notifyAll (phase : s.shutdown = .flagged) :
      Transition s { s with worker := fun w => (s.worker w).wake, shutdown := .joining }
  | join (phase : s.shutdown = .joining) (all : ∀ w, s.worker w = .exited) :
      Transition s { s with shutdown := .returned }

variable {s t : State κ ι Fd}

omit [DecidableEq κ] [DecidableEq ι] [Fintype κ] in
theorem isBlocked_iff {phase : Worker Fd} : phase.isBlocked = true ↔ phase = .blocked := by
  cases phase <;> simp [Worker.isBlocked]

omit [DecidableEq κ] [DecidableEq ι] [Fintype κ] in
theorem isExited_iff {phase : Worker Fd} : phase.isExited = true ↔ phase = .exited := by
  cases phase <;> simp [Worker.isExited]

omit [Fintype κ] in
/-- The steps of a worker. -/
theorem transition_of_workerStep {w : κ} (h : workerStep s w = some t) : Transition s t := by
  unfold workerStep at h
  split at h
  · rename_i hphase
    split_ifs at h with hfree
    exact Option.some.inj h ▸ .lock w (Or.inl hphase) (Option.isNone_iff_eq_none.mp hfree)
  · rename_i hphase
    split_ifs at h with htest
    · rw [Bool.or_eq_true, Bool.not_eq_true', List.isEmpty_eq_false_iff] at htest
      exact Option.some.inj h ▸ .ready w hphase htest
    · rw [Bool.or_eq_true, not_or, Bool.not_eq_true', List.isEmpty_eq_false_iff,
        not_not, Bool.not_eq_true] at htest
      exact Option.some.inj h ▸ .unready w hphase htest.1 htest.2
  · rename_i hphase
    exact Option.some.inj h ▸ .block w hphase
  · cases h
  · rename_i hphase
    split_ifs at h with hfree
    exact Option.some.inj h ▸ .lock w (Or.inr hphase) (Option.isNone_iff_eq_none.mp hfree)
  · rename_i hphase
    split at h
    · rename_i hqueue
      split_ifs at h with hstop
      · exact Option.some.inj h ▸ .exit w hphase hstop hqueue
      · exact Option.some.inj h ▸ .again w hphase (by simpa using hstop) hqueue
    · rename_i fd rest hqueue
      exact Option.some.inj h ▸ .pop w fd rest hphase hqueue
  · rename_i fd hphase
    exact Option.some.inj h ▸ .handle w fd hphase
  · cases h

/-- The steps of a caller of `submit`. -/
theorem transition_of_submitterStep {i : ι} {chosen : κ}
    (h : submitterStep s i chosen = some t) : Transition s t := by
  unfold submitterStep at h
  split at h
  · cases h
  · rename_i fd hphase
    split_ifs at h with hfree
    exact Option.some.inj h ▸ .enter i fd hphase (Option.isNone_iff_eq_none.mp hfree)
  · rename_i fd late hphase
    split_ifs at h with hstop
    · exact Option.some.inj h ▸ .close i fd late hphase hstop
    · exact Option.some.inj h ▸ .push i fd late hphase (by simpa using hstop)
  · rename_i hphase
    obtain ⟨notified, hnotified, ht⟩ := Option.map_eq_some_iff.mp h
    subst ht
    unfold State.notifyOne at hnotified
    split_ifs at hnotified with hblocked hnone
    · cases hnotified
      exact .notify i chosen hphase (isBlocked_iff.mp hblocked)
    · cases hnotified
      refine .notifyNone i hphase fun w hw => ?_
      have := hnone w
      rw [hw] at this
      cases this

/-- The steps of `shutdown`. -/
theorem transition_of_shutdownStep (h : shutdownStep s = some t) : Transition s t := by
  unfold shutdownStep at h
  split at h
  · rename_i hphase
    exact Option.some.inj h ▸ .begin hphase
  · rename_i hphase
    split_ifs at h with hfree
    exact Option.some.inj h ▸ .acquire hphase (Option.isNone_iff_eq_none.mp hfree)
  · rename_i hphase
    split_ifs at h with hstop
    · exact Option.some.inj h ▸ .repeated hphase hstop
    · exact Option.some.inj h ▸ .set hphase (by simpa using hstop)
  · rename_i hphase
    exact Option.some.inj h ▸ .notifyAll hphase
  · rename_i hphase
    split_ifs at h with hall
    exact Option.some.inj h ▸ .join hphase fun w => isExited_iff.mp (hall w)
  · cases h

/-- **Every step** is one of the transitions. -/
theorem transition_of_step {a : Action κ ι Fd} (h : step s a = some t) : Transition s t := by
  cases a with
  | work w => exact transition_of_workerStep h
  | call i fd =>
      simp only [step] at h
      split at h
      · rename_i hphase
        exact Option.some.inj h ▸ .call i fd hphase
      · cases h
  | submit i chosen => exact transition_of_submitterStep h
  | shutdown => exact transition_of_shutdownStep h

def Worker.holds : Worker Fd → Bool
  | .testing => true
  | .blocking => true
  | .serving => true
  | _ => false

def Submitter.holds : Submitter Fd → Bool
  | .holding _ _ => true
  | _ => false

def Shutdown.hasSet : Shutdown → Bool
  | .flagged => true
  | .joining => true
  | .returned => true
  | _ => false

def Shutdown.hasNotified : Shutdown → Bool
  | .joining => true
  | .returned => true
  | _ => false

/-- The mutex has one owner, and what was tested with it stays true until it is
released. -/
structure Inv (s : State κ ι Fd) : Prop where
  workerOwns : ∀ w, (s.worker w).holds = true → s.owner = some (.worker w)
  submitterOwns : ∀ i, (s.submitter i).holds = true → s.owner = some (.submitter i)
  shutdownOwns : s.shutdown = .holding → s.owner = some .shutdown
  set : s.stop = s.shutdown.hasSet
  seen : ∀ i fd late, s.submitter i = .holding fd late → late = s.stop
  idle : ∀ w, s.worker w = .blocking → s.stop = false ∧ s.queue = []
  exits : ∀ w, s.worker w = .exited → s.stop = true ∧ s.queue = []
  awake : s.shutdown.hasNotified = true → ∀ w, s.worker w ≠ .blocked
  joined : s.shutdown = .returned → ∀ w, s.worker w = .exited

/-- The flag is set before the workers are notified. -/
theorem hasSet_of_hasNotified {phase : Shutdown} (h : phase.hasNotified = true) :
    phase.hasSet = true := by
  cases phase <;> simp_all [Shutdown.hasNotified, Shutdown.hasSet]

omit [DecidableEq κ] [DecidableEq ι] [Fintype κ] in
theorem wake_ne_blocked (phase : Worker Fd) : phase.wake ≠ .blocked := by
  cases phase <;> simp [Worker.wake]

omit [DecidableEq κ] [DecidableEq ι] [Fintype κ] in
@[simp, grind =]
theorem holds_wake (phase : Worker Fd) : phase.wake.holds = phase.holds := by
  cases phase <;> rfl

omit [DecidableEq κ] [DecidableEq ι] [Fintype κ] in
@[simp, grind =]
theorem wake_eq_blocking {phase : Worker Fd} : phase.wake = .blocking ↔ phase = .blocking := by
  cases phase <;> simp [Worker.wake]

omit [DecidableEq κ] [DecidableEq ι] [Fintype κ] in
@[simp, grind =]
theorem wake_eq_exited {phase : Worker Fd} : phase.wake = .exited ↔ phase = .exited := by
  cases phase <;> simp [Worker.wake]

omit [Fintype κ] in
/-- The mutex is taken only when it is free, and released only by its owner. -/
theorem owners_transition (hs : Inv s) (h : Transition s t) :
    (∀ w, (t.worker w).holds = true → t.owner = some (.worker w)) ∧
      (∀ i, (t.submitter i).holds = true → t.owner = some (.submitter i)) ∧
      (t.shutdown = .holding → t.owner = some .shutdown) := by
  have hworker := hs.workerOwns
  have hsubmitter := hs.submitterOwns
  have hshutdown := hs.shutdownOwns
  cases h <;> refine ⟨?_, ?_, ?_⟩ <;>
    simp only [State.moveWorker, State.moveSubmitter, Function.update_apply] <;>
    grind [Worker.holds, Submitter.holds]

omit [Fintype κ] in
/-- The tests of a worker stay true while it has the mutex. -/
theorem tests_transition (hs : Inv s) (h : Transition s t) :
    (∀ w, t.worker w = .blocking → t.stop = false ∧ t.queue = []) ∧
      (∀ w, t.worker w = .exited → t.stop = true ∧ t.queue = []) := by
  have hworker := hs.workerOwns
  have hsubmitter := hs.submitterOwns
  have hshutdown := hs.shutdownOwns
  have hidle := hs.idle
  have hexits := hs.exits
  cases h <;> refine ⟨?_, ?_⟩ <;>
    simp only [State.moveWorker, State.moveSubmitter, Function.update_apply] <;>
    grind [Worker.holds, Submitter.holds]

omit [Fintype κ] in
/-- No worker blocks after `notify_all`: its test came before `stop_` was set. -/
theorem awake_transition (hs : Inv s) (h : Transition s t)
    (hnotified : t.shutdown.hasNotified = true) (w : κ) : t.worker w ≠ .blocked := by
  cases h with
  | block v phase =>
      have hset : s.shutdown.hasSet = true := hasSet_of_hasNotified hnotified
      have hrunning : s.stop = false := (hs.idle v phase).1
      rw [hs.set, hset] at hrunning
      cases hrunning
  | notifyAll phase => exact wake_ne_blocked _
  | repeated phase stopped =>
      have hset : s.stop = s.shutdown.hasSet := hs.set
      rw [phase, stopped] at hset
      cases hset
  | _ =>
      have hawake := hs.awake
      simp only [State.moveWorker, State.moveSubmitter, Function.update_apply] at hnotified ⊢
      grind [Shutdown.hasNotified]

omit [Fintype κ] in
/-- `stop_` is set with the mutex held, so a submitter that has it sees no change. -/
theorem seen_transition (hs : Inv s) (h : Transition s t) (i : ι) (fd : Fd) (late : Bool)
    (hphase : t.submitter i = .holding fd late) : late = t.stop := by
  have hseen := hs.seen
  cases h with
  | set phase running =>
      have hsubmitter : s.owner = some (.submitter i) :=
        hs.submitterOwns i (by rw [hphase]; rfl)
      rw [hs.shutdownOwns phase] at hsubmitter
      cases hsubmitter
  | _ =>
      simp only [State.moveWorker, State.moveSubmitter, Function.update_apply] at hphase ⊢
      grind

omit [Fintype κ] in
/-- **One step** keeps the invariant of the mutex and the flag. -/
theorem inv_transition (hs : Inv s) (h : Transition s t) : Inv t := by
  obtain ⟨hworker, hsubmitter, hshutdown⟩ := owners_transition hs h
  obtain ⟨hidle, hexits⟩ := tests_transition hs h
  refine ⟨hworker, hsubmitter, hshutdown, ?_, seen_transition hs h, hidle, hexits,
    awake_transition hs h, ?_⟩
  · have hset := hs.set
    cases h <;> simp only [State.moveWorker, State.moveSubmitter] <;> grind [Shutdown.hasSet]
  · have hset := hs.set
    have hjoined := hs.joined
    cases h <;> simp only [State.moveWorker, State.moveSubmitter, Function.update_apply] <;>
      grind [Shutdown.hasSet]

/-- Some worker is on its way to the queue, or a submitter is about to notify. -/
def Attended (s : State κ ι Fd) : Prop :=
  (∃ w, s.worker w ≠ .blocked ∧ s.worker w ≠ .exited) ∨ ∃ i, s.submitter i = .pushed

omit [Fintype κ] [DecidableEq ι] in
/-- A worker that moves can attend to the queue. -/
theorem attended_of_moveWorker {w : κ} {next : Worker Fd} (hblocked : next ≠ .blocked)
    (hexited : next ≠ .exited) : Attended (s.moveWorker w next) :=
  .inl ⟨w, by simpa [State.moveWorker] using ⟨hblocked, hexited⟩⟩

omit [Fintype κ] [DecidableEq κ] in
theorem attended_of_moveSubmitter {i : ι} {next : Submitter Fd}
    (hphase : s.submitter i ≠ .pushed) (h : Attended s) : Attended (s.moveSubmitter i next) := by
  obtain hworker | ⟨j, hj⟩ := h
  · exact .inl hworker
  · have hother : j ≠ i := by
      intro hji
      exact hphase (hji ▸ hj)
    exact .inr ⟨j, by simpa [State.moveSubmitter, hother] using hj⟩

omit [Fintype κ] in
/-- A worker blocks or exits with the queue empty, and a submitter that finds nobody
to notify finds a worker that has not blocked. -/
theorem attended_transition [Nonempty κ] (hs : Inv s) (hattended : s.queue ≠ [] → Attended s)
    (h : Transition s t) (hqueue : t.queue ≠ []) : Attended t := by
  cases h with
  | block w phase => exact (hqueue (hs.idle w phase).2).elim
  | exit w phase stopped empty => exact (hqueue empty).elim
  | push i fd late phase running => exact .inr ⟨i, by simp [State.moveSubmitter]⟩
  | notify i chosen phase blocked =>
      exact .inl ⟨chosen, by simp [State.moveWorker, State.moveSubmitter]⟩
  | notifyNone i phase unblocked =>
      obtain ⟨w⟩ := ‹Nonempty κ›
      exact .inl ⟨w, unblocked w, fun hexited => hqueue (hs.exits w hexited).2⟩
  | notifyAll phase =>
      obtain ⟨w, -, hexited⟩ | hpushed := hattended hqueue
      · exact .inl ⟨w, wake_ne_blocked _, by simpa using hexited⟩
      · exact .inr hpushed
  | call i fd phase =>
      exact attended_of_moveSubmitter (by simp [phase]) (hattended hqueue)
  | enter i fd phase free =>
      exact attended_of_moveSubmitter (by simp [phase]) (hattended hqueue)
  | close i fd late phase stopped =>
      exact attended_of_moveSubmitter (by simp [phase]) (hattended hqueue)
  | begin | acquire | repeated | set | join => exact hattended hqueue
  | _ => exact attended_of_moveWorker (by simp) (by simp)

section Accounts

variable [Fintype ι] [DecidableEq Fd]

/-- One for a call of `submit` with `fd` that has neither pushed nor closed it. -/
def Submitter.inCall (fd : Fd) : Submitter Fd → Nat
  | .entering x => if x = fd then 1 else 0
  | .holding x _ => if x = fd then 1 else 0
  | _ => 0

/-- One for a worker that is in the handler with `fd`. -/
def Worker.inHand (fd : Fd) : Worker Fd → Nat
  | .handling x => if x = fd then 1 else 0
  | _ => 0

omit [DecidableEq κ] [DecidableEq ι] [Fintype κ] [Fintype ι] in
/-- A notification puts nothing into a worker's hand. -/
theorem inHand_wake (fd : Fd) (phase : Worker Fd) :
    phase.wake.inHand fd = phase.inHand fd := by
  cases phase <;> rfl

structure Accounts (s : State κ ι Fd) : Prop where
  order : s.accepted = s.taken ++ s.queue
  late : ∀ x ∈ s.closed, x.2 = true
  submitted : ∀ fd, s.submitted.count fd = tally (Submitter.inCall fd) s.submitter +
    s.accepted.count fd + (s.closed.map Prod.fst).count fd
  taken : ∀ fd, s.taken.count fd = tally (Worker.inHand fd) s.worker + s.handled.count fd

omit [DecidableEq ι] in
/-- A worker with the same connection in hand, or still with none. -/
theorem Accounts.moveWorker (ha : Accounts s) {w : κ} {next : Worker Fd}
    (hnext : ∀ fd, next.inHand fd = (s.worker w).inHand fd) (owner : Option (Party κ ι)) :
    Accounts ({ s with owner := owner }.moveWorker w next) := by
  refine ⟨ha.order, ha.late, ha.submitted, fun fd => ?_⟩
  simp only [State.moveWorker]
  rw [tally_update_of_eq (hnext fd)]
  exact ha.taken fd

omit [DecidableEq κ] in
/-- A submitter in the same call, or still in none. -/
theorem Accounts.moveSubmitter (ha : Accounts s) {i : ι} {next : Submitter Fd}
    (hnext : ∀ fd, next.inCall fd = (s.submitter i).inCall fd) (owner : Option (Party κ ι)) :
    Accounts ({ s with owner := owner }.moveSubmitter i next) := by
  refine ⟨ha.order, ha.late, fun fd => ?_, ha.taken⟩
  simp only [State.moveSubmitter]
  rw [tally_update_of_eq (hnext fd)]
  exact ha.submitted fd

/-- **One step** keeps every connection accounted for. -/
theorem accounts_transition (hs : Inv s) (ha : Accounts s) (h : Transition s t) :
    Accounts t := by
  obtain ⟨horder, hlate, hsubmitted, htaken⟩ := id ha
  cases h with
  | lock w phase free =>
      apply ha.moveWorker
      intro fd
      rcases phase with phase | phase
      · rw [phase]
        rfl
      · rw [phase]
        rfl
  | ready w phase | unready w phase | block w phase | exit w phase | again w phase =>
      apply ha.moveWorker
      intro fd
      rw [phase]
      rfl
  | pop w fd rest phase front =>
      refine ⟨by simp [State.moveWorker, horder, front], hlate, hsubmitted, fun x => ?_⟩
      have hmove := tally_update (Worker.inHand x) s.worker w (.handling fd)
      have htaken := htaken x
      simp only [phase, Worker.inHand] at hmove
      simp only [State.moveWorker, List.count_append, List.count_singleton, beq_iff_eq]
      omega
  | handle w fd phase =>
      refine ⟨horder, hlate, hsubmitted, fun x => ?_⟩
      have hmove := tally_update (Worker.inHand x) s.worker w .locking
      have htaken := htaken x
      simp only [phase, Worker.inHand] at hmove
      simp only [State.moveWorker, List.count_append, List.count_singleton, beq_iff_eq]
      omega
  | call i fd phase =>
      refine ⟨horder, hlate, fun x => ?_, htaken⟩
      have hmove := tally_update (Submitter.inCall x) s.submitter i (.entering fd)
      have hsubmitted := hsubmitted x
      simp only [phase, Submitter.inCall] at hmove
      simp only [State.moveSubmitter, List.count_append, List.count_singleton, beq_iff_eq]
      omega
  | enter i fd phase free =>
      apply ha.moveSubmitter
      intro x
      rw [phase]
      rfl
  | close i fd late phase stopped =>
      refine ⟨horder, ?_, fun x => ?_, htaken⟩
      · intro x hx
        rcases List.mem_append.mp hx with hx | hx
        · exact hlate x hx
        · rw [List.mem_singleton.mp hx, hs.seen i fd late phase, stopped]
      · have hmove := tally_update (Submitter.inCall x) s.submitter i .idle
        have hsubmitted := hsubmitted x
        simp only [phase, Submitter.inCall] at hmove
        simp only [State.moveSubmitter, List.map_append, List.map_singleton, List.count_append,
          List.count_singleton, beq_iff_eq]
        omega
  | push i fd late phase running =>
      refine ⟨by simp [State.moveSubmitter, horder], hlate, fun x => ?_, htaken⟩
      have hmove := tally_update (Submitter.inCall x) s.submitter i .pushed
      have hsubmitted := hsubmitted x
      simp only [phase, Submitter.inCall] at hmove
      simp only [State.moveSubmitter, List.count_append, List.count_singleton, beq_iff_eq]
      omega
  | notify i chosen phase blocked =>
      have hwoken : Accounts (s.moveWorker chosen .woken) :=
        ha.moveWorker (fun fd => by rw [blocked]; rfl) s.owner
      apply hwoken.moveSubmitter
      intro fd
      change _ = (s.submitter i).inCall fd
      rw [phase]
      rfl
  | notifyNone i phase unblocked =>
      apply ha.moveSubmitter
      intro fd
      rw [phase]
      rfl
  | notifyAll phase =>
      refine ⟨horder, hlate, hsubmitted, fun x => ?_⟩
      rw [htaken x, tally_congr fun w => (inHand_wake x (s.worker w)).symm]
  | begin | acquire | repeated | set | join => exact ⟨horder, hlate, hsubmitted, htaken⟩

/-- What holds of the pool at any moment. -/
structure Safe (s : State κ ι Fd) : Prop where
  /-- A connection is in the call of `submit`, queued, in a handler, handled or closed. -/
  conserved : ∀ fd, s.submitted.count fd = tally (Submitter.inCall fd) s.submitter +
    s.queue.count fd + tally (Worker.inHand fd) s.worker + s.handled.count fd +
    (s.closed.map Prod.fst).count fd
  /-- What the handler was called with, it is called with once. -/
  passed : ∀ fd, s.taken.count fd = tally (Worker.inHand fd) s.worker + s.handled.count fd
  /-- After `shutdown` every finished call led to one handling or one closing. -/
  settled : s.shutdown = .returned → ∀ fd, s.submitted.count fd =
    tally (Submitter.inCall fd) s.submitter + s.handled.count fd +
      (s.closed.map Prod.fst).count fd
  closedLate : ∀ x ∈ s.closed, x.2 = true
  exits : ∀ w, s.worker w = .exited → s.stop = true ∧ s.queue = []
  order : s.accepted = s.taken ++ s.queue
  awake : s.shutdown.hasNotified = true → ∀ w, s.worker w ≠ .blocked
  attended : s.queue ≠ [] → Attended s

omit [DecidableEq κ] [DecidableEq ι] in
/-- At first there are none. -/
theorem accounts_start : Accounts (start κ ι Fd) where
  order := rfl
  late := by simp [start]
  submitted fd := by
    have hcalls : tally (Submitter.inCall fd) (start κ ι Fd).submitter = 0 :=
      tally_eq_zero fun i => rfl
    rw [hcalls]
    rfl
  taken fd := by
    have hhands : tally (Worker.inHand fd) (start κ ι Fd).worker = 0 :=
      tally_eq_zero fun w => rfl
    rw [hhands]
    rfl

omit [DecidableEq κ] [DecidableEq ι] [Fintype κ] [Fintype ι] [DecidableEq Fd] in
theorem inv_start : Inv (start κ ι Fd) := by
  constructor <;> simp [start, Worker.holds, Submitter.holds, Shutdown.hasSet,
    Shutdown.hasNotified]

omit [DecidableEq κ] [DecidableEq ι] in
/-- The invariants say where every connection is. -/
theorem safe_of_inv [Nonempty κ] (hs : Inv s) (ha : Accounts s)
    (hattended : s.queue ≠ [] → Attended s) : Safe s := by
  have hconserved : ∀ fd, s.submitted.count fd = tally (Submitter.inCall fd) s.submitter +
      s.queue.count fd + tally (Worker.inHand fd) s.worker + s.handled.count fd +
      (s.closed.map Prod.fst).count fd := by
    intro fd
    have hsubmitted := ha.submitted fd
    have htaken := ha.taken fd
    rw [ha.order, List.count_append] at hsubmitted
    omega
  refine ⟨hconserved, ha.taken, fun hreturned fd => ?_, ha.late, hs.exits, ha.order,
    hs.awake, hattended⟩
  have hexited := hs.joined hreturned
  have hqueue : s.queue = [] := by
    obtain ⟨w⟩ := ‹Nonempty κ›
    exact (hs.exits w (hexited w)).2
  have hhand : tally (Worker.inHand fd) s.worker = 0 := by
    apply tally_eq_zero
    intro w
    rw [hexited w]
    rfl
  have hall := hconserved fd
  rw [hqueue, hhand, List.count_nil] at hall
  omega

/-- **Nothing is lost and nothing is stuck**, for any number of workers and callers
and any schedule. -/
theorem poolSafe_of_run [Nonempty κ] {schedule : List (Action κ ι Fd)}
    (hrun : runFrom step (start κ ι Fd) schedule = some s) : Safe s := by
  have preserved : ∀ u (a : Action κ ι Fd) v,
      (Inv u ∧ Accounts u ∧ (u.queue ≠ [] → Attended u)) → step u a = some v →
      (Inv v ∧ Accounts v ∧ (v.queue ≠ [] → Attended v)) := by
    intro u a v h hstep
    obtain ⟨hinv, haccounts, hattended⟩ := h
    have htransition := transition_of_step hstep
    exact ⟨inv_transition hinv htransition, accounts_transition hinv haccounts htransition,
      attended_transition hinv hattended htransition⟩
  obtain ⟨hinv, haccounts, hattended⟩ :=
    invariant_of_run preserved ⟨inv_start, accounts_start, fun h => (h rfl).elim⟩ hrun
  exact safe_of_inv hinv haccounts hattended

/-- Two workers, one caller: `7` is queued, then handled while the pool shuts down;
`8` comes too late and is closed. -/
def lateCall : List (Action (Fin 2) (Fin 1) Nat) :=
  [.work 0, .work 0, .work 0, .call 0 7, .submit 0 0, .submit 0 0, .submit 0 0,
    .shutdown, .shutdown, .shutdown, .work 0, .work 0, .work 0, .shutdown, .call 0 8,
    .submit 0 0, .submit 0 0, .work 0, .work 0, .work 0, .work 0, .work 1, .work 1, .work 1,
    .shutdown]

/-- One connection is handled, and one that comes too late is closed. -/
theorem safe_lateCall :
    ∃ s, (runFrom step (start (Fin 2) (Fin 1) Nat) lateCall = some s ∧ Safe s) ∧
      s.shutdown = .returned ∧ s.handled = [7] ∧ s.closed = [(8, true)] := by
  obtain ⟨s, hrun, hs⟩ := exists_of_runFrom step (start (Fin 2) (Fin 1) Nat) lateCall
    (fun s => s.shutdown = .returned ∧ s.handled = [7] ∧ s.closed = [(8, true)]) (by decide)
  exact ⟨s, ⟨hrun, poolSafe_of_run hrun⟩, of_decide_eq_true hs⟩

end Accounts

end ThreadPool

end Nshmqtt
