import Nshmqtt.ConfigLimits
import Nshmqtt.PoolDrain

/-!
# The accept loop

`Server::run` on the main thread, together with the worker threads of its pool: poll the
listeners and the signals, accept what is there and submit it to the pool, write the textfile
when it is due, and once a signal came let the pool drain and return.  What `poll`, `accept4`
and `read` return and what the clock shows is part of the schedule.

A worker wakes up from `wait` only when it is notified; `ServerShutdown` adds the spurious wakeups.
A call of the handler that does not return is a schedule without a further step of its worker.

* `accepted_handled`: when `run` has returned, every connection that was accepted was handled
  once, in whatever order the threads ran;
* `textfile_schedule`: when `poll` wakes up and when the textfile is written.
-/

namespace Nshmqtt

open ByteStrings TransitionRuns Tally

namespace AcceptLoop

inductive StopReason
  /-- `SIGTERM` or `SIGINT` was read. -/
  | signal
  | pollFailed
  deriving DecidableEq

/-- The point `run` has reached; the flags are `revents` of the listeners still to be served and
of the signals. -/
inductive Main
  | polling
  /-- About to call `accept4` on a listener; `ready` are the listeners after it. -/
  | accepting (ready : List Bool) (signalled : Bool)
  /-- In `submit`. -/
  | submitting (ready : List Bool) (signalled : Bool)
  | signals (signalled : Bool)
  | textfile (running : Bool)
  /-- In `cleanup`. -/
  | stopping (reason : StopReason)
  | returned (reason : StopReason)
  deriving DecidableEq

inductive PollResult
  | interrupted
  | failed
  | ready (listeners : List Bool) (signals : Bool)
  deriving DecidableEq

inductive AcceptResult (Fd : Type*)
  | accepted (fd : Fd)
  | interrupted
  | wouldBlock
  | failed
  deriving DecidableEq

/-- One call of `poll`: when, with which timeout, and when the next textfile is due. -/
structure PollCall where
  now : Int
  timeoutMs : Int
  due : Int

/-- One textfile: when it was due by the clock, and when it was written. -/
structure TextfileWrite where
  began : Int
  ended : Int

structure State (κ Fd : Type*) where
  main : Main
  pool : ThreadPool.State κ Unit Fd
  /-- What `accept4` returned, in order. -/
  fds : List Fd
  /-- The last value of the steady clock, in nanoseconds. -/
  clock : Int
  nextTextfileWrite : Int
  polls : List PollCall
  writes : List TextfileWrite

inductive Action (κ Fd : Type*)
  | poll (now : Int) (result : PollResult)
  | accept (result : AcceptResult Fd)
  /-- The next step in `submit`; if it notifies, the worker that is woken. -/
  | submit (chosen : κ)
  /-- The number of the signal that was read. -/
  | signals (read : Option Nat)
  /-- The end of the loop's body: the clock before and after a textfile. -/
  | textfile (began ended : Int)
  | shutdown
  | work (w : κ)
  deriving DecidableEq

def nsPerSecond : Int := 1000000000

def textfileEnabled (cfg : Config) : Bool := !cfg.prometheusTextfile.isEmpty

/-- The timeout in milliseconds: until the textfile is due, or none. -/
def pollTimeout (cfg : Config) (nextTextfileWrite now : Int) : Int :=
  if textfileEnabled cfg then
    let remainingMs := (nextTextfileWrite - now).tdiv 1000000
    castInt (if remainingMs > 0 then remainingMs else 0)
  else -1

/-- On to the next listener that has something to accept. -/
def serve : List Bool → Bool → Main
  | [], signalled => .signals signalled
  | true :: rest, signalled => .accepting rest signalled
  | false :: rest, signalled => serve rest signalled

def stops (read : Option Nat) : Bool := read = some 15 || read = some 2

/-- At the end of the loop's body. -/
def atEnd (running : Bool) : Main := if running then .polling else .stopping .signal

variable {κ Fd : Type*} [DecidableEq κ] [Fintype κ]

def pollStep (cfg : Config) (s : State κ Fd) (now : Int) (result : PollResult) :
    Option (State κ Fd) :=
  match s.main with
  | .polling =>
      if now < s.clock then none
      else
        let called := { s with
          clock := now
          polls := s.polls ++
            [⟨now, pollTimeout cfg s.nextTextfileWrite now, s.nextTextfileWrite⟩] }
        match result with
        | .interrupted => some called
        | .failed => some { called with main := .stopping .pollFailed }
        | .ready listeners signals => some { called with main := serve listeners signals }
  | _ => none

def acceptStep (s : State κ Fd) (result : AcceptResult Fd) : Option (State κ Fd) :=
  match s.main with
  | .accepting ready signalled =>
      match result with
      | .accepted fd =>
          (ThreadPool.step s.pool (.call () fd)).map fun pool =>
            { s with main := .submitting ready signalled, pool := pool, fds := s.fds ++ [fd] }
      | _ => some { s with main := serve ready signalled }
  | _ => none

def submitStep (s : State κ Fd) (chosen : κ) : Option (State κ Fd) :=
  match s.main with
  | .submitting ready signalled =>
      (ThreadPool.step s.pool (.submit () chosen)).map fun pool =>
        match pool.submitter () with
        | .idle => { s with main := .accepting ready signalled, pool := pool }
        | _ => { s with pool := pool }
  | _ => none

def textfileStep (cfg : Config) (s : State κ Fd) (began ended : Int) : Option (State κ Fd) :=
  match s.main with
  | .textfile running =>
      if textfileEnabled cfg then
        if began < s.clock ∨ ended < began then none
        else if began ≥ s.nextTextfileWrite then
          some { s with
            main := atEnd running
            clock := ended
            nextTextfileWrite := ended + cfg.prometheusTextfileIntervalSeconds * nsPerSecond
            writes := s.writes ++ [⟨began, ended⟩] }
        else some { s with main := atEnd running, clock := began }
      else some { s with main := atEnd running }
  | _ => none

def shutdownStep (s : State κ Fd) : Option (State κ Fd) :=
  match s.main with
  | .stopping reason =>
      (ThreadPool.step s.pool .shutdown).map fun pool =>
        match pool.shutdown with
        | .returned => { s with main := .returned reason, pool := pool }
        | _ => { s with pool := pool }
  | _ => none

def step (cfg : Config) (s : State κ Fd) : Action κ Fd → Option (State κ Fd)
  | .poll now result => pollStep cfg s now result
  | .accept result => acceptStep s result
  | .submit chosen => submitStep s chosen
  | .signals read =>
      match s.main with
      | .signals signalled => some { s with main := .textfile (!(signalled && stops read)) }
      | _ => none
  | .textfile began ended => textfileStep cfg s began ended
  | .shutdown => shutdownStep s
  | .work w => (ThreadPool.step s.pool (.work w)).map fun pool => { s with pool := pool }

/-- `run` is called at the time `now`; the workers have just been started. -/
def start (now : Int) : State κ Fd :=
  ⟨.polling, ThreadPool.start κ Unit Fd, [], now, now, [], []⟩

section

open ThreadPool (Submitter Transition Inv)

/-- The connection that is in `submit` and not queued yet. -/
def inSubmit : Submitter Fd → List Fd
  | .entering fd | .holding fd _ => [fd]
  | .idle | .pushed => []

/-- What was submitted is queued in this order, and nothing was closed. -/
structure Lined (pool : ThreadPool.State κ Unit Fd) : Prop where
  order : pool.submitted = pool.accepted ++ inSubmit (pool.submitter ())
  closed : pool.closed = []

omit [Fintype κ] in
/-- A connection is closed only if `submit` comes after `shutdown`. -/
theorem lined_transition {pool next : ThreadPool.State κ Unit Fd} (hinv : Inv pool)
    (h : Lined pool) (hbefore : pool.submitter () ≠ .idle → pool.shutdown = .idle)
    (htransition : Transition pool next) : Lined next := by
  obtain ⟨horder, hclosed⟩ := h
  cases htransition with
  | call i fd phase =>
      refine ⟨?_, hclosed⟩
      rw [phase] at horder
      simpa [ThreadPool.State.moveSubmitter, inSubmit] using horder
  | enter i fd phase free =>
      refine ⟨?_, hclosed⟩
      rw [phase] at horder
      simpa [ThreadPool.State.moveSubmitter, inSubmit] using horder
  | close i fd late phase stopped =>
      have hset := hinv.set
      rw [hbefore (by simp [phase]), stopped] at hset
      cases hset
  | push i fd late phase running =>
      refine ⟨?_, hclosed⟩
      rw [phase] at horder
      simpa [ThreadPool.State.moveSubmitter, inSubmit] using horder
  | notify i chosen phase blocked =>
      refine ⟨?_, hclosed⟩
      rw [phase] at horder
      simpa [ThreadPool.State.moveSubmitter, ThreadPool.State.moveWorker, inSubmit] using horder
  | notifyNone i phase unblocked =>
      refine ⟨?_, hclosed⟩
      rw [phase] at horder
      simpa [ThreadPool.State.moveSubmitter, inSubmit] using horder
  | _ => exact ⟨horder, hclosed⟩

variable {pool next : ThreadPool.State κ Unit Fd}

omit [Fintype κ] in
/-- A worker touches neither the caller of `submit`, nor `shutdown`, nor what was submitted. -/
theorem workerStep_frame {w : κ} (h : ThreadPool.workerStep pool w = some next) :
    next.submitter = pool.submitter ∧ next.shutdown = pool.shutdown ∧
      next.submitted = pool.submitted := by
  unfold ThreadPool.workerStep at h
  split at h <;> try split at h
  all_goals cases h <;> exact ⟨rfl, rfl, rfl⟩

theorem submitterStep_frame {chosen : κ}
    (h : ThreadPool.submitterStep pool () chosen = some next) :
    next.shutdown = pool.shutdown ∧ next.submitted = pool.submitted := by
  unfold ThreadPool.submitterStep at h
  split at h
  · cases h
  · split_ifs at h
    cases h
    exact ⟨rfl, rfl⟩
  · split_ifs at h <;> cases h <;> exact ⟨rfl, rfl⟩
  · obtain ⟨notified, hnotified, rfl⟩ := Option.map_eq_some_iff.mp h
    unfold ThreadPool.State.notifyOne at hnotified
    split_ifs at hnotified <;> cases hnotified <;> exact ⟨rfl, rfl⟩

omit [DecidableEq κ] in
theorem shutdownStep_frame (h : ThreadPool.shutdownStep pool = some next) :
    next.submitter = pool.submitter ∧ next.submitted = pool.submitted := by
  unfold ThreadPool.shutdownStep at h
  split at h <;> try split at h
  all_goals cases h <;> exact ⟨rfl, rfl⟩

end

/-- What is known of the pool at any moment of `run`. -/
structure PoolSound [DecidableEq Fd] (pool : ThreadPool.State κ Unit Fd) : Prop where
  inv : ThreadPool.Inv pool
  owned : ThreadPool.Owned pool
  accounts : ThreadPool.Accounts pool
  lined : Lined pool

/-- Where the pool stands when the main thread is at `main`. -/
structure Tied (main : Main) (pool : ThreadPool.State κ Unit Fd) : Prop where
  submitting : pool.submitter () ≠ .idle → ∃ ready signalled, main = .submitting ready signalled
  stopping : pool.shutdown ≠ .idle → ∃ reason, main = .stopping reason ∨ main = .returned reason
  returned : pool.shutdown = .returned ↔ ∃ reason, main = .returned reason

structure LoopInv [DecidableEq Fd] (s : State κ Fd) : Prop where
  pool : PoolSound s.pool
  tied : Tied s.main s.pool
  submitted : s.pool.submitted = s.fds

section

variable [DecidableEq Fd] {cfg : Config} {s t : State κ Fd} {pool next : ThreadPool.State κ Unit Fd}

/-- What holds of the pool is kept by its steps, as nobody submits once `shutdown` was called. -/
theorem PoolSound.transition (h : PoolSound pool)
    (hbefore : pool.submitter () ≠ .idle → pool.shutdown = .idle)
    (htransition : ThreadPool.Transition pool next) : PoolSound next where
  inv := ThreadPool.inv_transition h.inv htransition
  owned := ThreadPool.owned_transition h.inv h.owned htransition
  accounts := ThreadPool.accounts_transition h.inv h.accounts htransition
  lined := lined_transition h.inv h.lined hbefore htransition

omit [DecidableEq κ] [Fintype κ] [DecidableEq Fd] in
/-- While the loop submits, `shutdown` was not called. -/
theorem Tied.before {main : Main} (h : Tied main pool) (hsubmitter : pool.submitter () ≠ .idle) :
    pool.shutdown = .idle := by
  by_contra hshutdown
  obtain ⟨ready, signalled, hmain⟩ := h.submitting hsubmitter
  obtain ⟨reason, hreason⟩ := h.stopping hshutdown
  rw [hmain] at hreason
  rcases hreason with hreason | hreason <;> cases hreason

/-- A step of the pool that is one of the main thread's or of a worker. -/
theorem LoopInv.poolStep (h : LoopInv s) {a : ThreadPool.Action κ Unit Fd}
    (hstep : ThreadPool.step s.pool a = some next) : PoolSound next :=
  h.pool.transition h.tied.before (ThreadPool.transition_of_step hstep)

omit [DecidableEq κ] [Fintype κ] [DecidableEq Fd] in
/-- The main thread goes on without the pool. -/
theorem Tied.goOn {after : Main} (hsubmitter : pool.submitter () = .idle)
    (hshutdown : pool.shutdown = .idle) (hafter : ∀ reason, after ≠ .returned reason) :
    Tied after pool := by
  refine ⟨fun hne => absurd hsubmitter hne, fun hne => absurd hshutdown hne, ?_⟩
  rw [hshutdown]
  constructor
  · intro heq
    cases heq
  · intro hreturned
    obtain ⟨reason, hreason⟩ := hreturned
    exact absurd hreason (hafter reason)

omit [DecidableEq κ] [Fintype κ] [DecidableEq Fd] in
/-- While the main thread is neither in `submit` nor past the loop. -/
theorem Tied.quiet {main : Main} (h : Tied main pool)
    (hsubmitting : ∀ ready signalled, main ≠ .submitting ready signalled)
    (hstopping : ∀ reason, main ≠ .stopping reason) (hreturned : ∀ reason, main ≠ .returned reason) :
    pool.submitter () = .idle ∧ pool.shutdown = .idle := by
  constructor
  · by_contra hne
    obtain ⟨ready, signalled, hmain⟩ := h.submitting hne
    exact hsubmitting ready signalled hmain
  · by_contra hne
    obtain ⟨reason, hmain | hmain⟩ := h.stopping hne
    · exact hstopping reason hmain
    · exact hreturned reason hmain

/-- Nothing that is still to be served means that `run` has returned. -/
theorem serve_ne (ready : List Bool) (signalled : Bool) (reason : StopReason) :
    serve ready signalled ≠ .returned reason := by
  induction ready with
  | nil => exact Main.noConfusion
  | cons listener rest ih =>
      cases listener with
      | true => exact Main.noConfusion
      | false => exact ih

omit [DecidableEq κ] in
/-- The main thread goes on without the pool, and accepts nothing. -/
theorem LoopInv.goOn (h : LoopInv s) {after : Main}
    (hquiet : s.pool.submitter () = .idle ∧ s.pool.shutdown = .idle)
    (hafter : ∀ reason, after ≠ .returned reason) (clock due : Int) (polls : List PollCall)
    (writes : List TextfileWrite) :
    LoopInv ({ s with
      main := after, clock := clock, nextTextfileWrite := due, polls := polls,
      writes := writes }) :=
  ⟨h.pool, .goOn hquiet.1 hquiet.2 hafter, h.submitted⟩

omit [DecidableEq κ] in
/-- `poll` touches the main thread alone. -/
theorem loopInv_pollStep {now : Int} {result : PollResult} (h : LoopInv s)
    (hstep : pollStep cfg s now result = some t) : LoopInv t := by
  unfold pollStep at hstep
  split at hstep
  · rename_i hmain
    have hquiet := h.tied.quiet (by simp [hmain]) (by simp [hmain]) (by simp [hmain])
    split_ifs at hstep
    cases result with
    | interrupted =>
        cases hstep
        exact h.goOn hquiet (by simp [hmain]) _ _ _ _
    | failed =>
        cases hstep
        exact h.goOn hquiet (fun _ => Main.noConfusion) _ _ _ _
    | ready listeners signals =>
        cases hstep
        exact h.goOn hquiet (serve_ne listeners signals) _ _ _ _
  · cases hstep

/-- A connection that is accepted is handed to `submit` at once. -/
theorem loopInv_acceptStep {result : AcceptResult Fd} (h : LoopInv s)
    (hstep : acceptStep s result = some t) : LoopInv t := by
  unfold acceptStep at hstep
  split at hstep
  · rename_i ready signalled hmain
    have hquiet := h.tied.quiet (by simp [hmain]) (by simp [hmain]) (by simp [hmain])
    cases result with
    | accepted fd =>
        obtain ⟨next, hnext, rfl⟩ := Option.map_eq_some_iff.mp hstep
        have hpool := h.poolStep hnext
        simp only [ThreadPool.step, hquiet.1, Option.some.injEq] at hnext
        subst hnext
        refine ⟨hpool, ⟨fun _ => ⟨ready, signalled, rfl⟩, fun hne => absurd hquiet.2 hne, ?_⟩, ?_⟩
        · simp [ThreadPool.State.moveSubmitter, hquiet.2]
        · simp [ThreadPool.State.moveSubmitter, h.submitted]
    | interrupted | wouldBlock | failed =>
        cases hstep
        exact h.goOn hquiet (serve_ne ready signalled) _ _ _ _
  · cases hstep

/-- The loop goes on when `submit` has returned. -/
theorem loopInv_submitStep {chosen : κ} (h : LoopInv s)
    (hstep : submitStep s chosen = some t) : LoopInv t := by
  unfold submitStep at hstep
  split at hstep
  · rename_i ready signalled hmain
    obtain ⟨next, hnext, ht⟩ := Option.map_eq_some_iff.mp hstep
    have hidle : s.pool.shutdown = .idle := by
      by_contra hne
      obtain ⟨reason, hreason⟩ := h.tied.stopping hne
      rw [hmain] at hreason
      rcases hreason with hreason | hreason <;> cases hreason
    have hpool := h.poolStep hnext
    obtain ⟨hshutdown, hsubmitted⟩ := submitterStep_frame hnext
    rw [hidle] at hshutdown
    have htied : ∀ main, (next.submitter () ≠ .idle → ∃ ready signalled,
        main = .submitting ready signalled) → (∀ reason, main ≠ .returned reason) →
        Tied main next := by
      intro main hsubmitting hreturned
      refine ⟨hsubmitting, fun hne => absurd hshutdown hne, ?_⟩
      rw [hshutdown]
      simp [hreturned]
    split at ht <;> subst ht
    · rename_i hphase
      exact ⟨hpool, htied _ (fun hne => absurd hphase hne) (by simp),
        hsubmitted.trans h.submitted⟩
    · exact ⟨hpool, htied _ (fun _ => ⟨ready, signalled, hmain⟩) (by simp [hmain]),
        hsubmitted.trans h.submitted⟩
  · cases hstep

omit [DecidableEq κ] in
/-- The textfile is written between two rounds of the loop. -/
theorem loopInv_textfileStep {began ended : Int} (h : LoopInv s)
    (hstep : textfileStep cfg s began ended = some t) : LoopInv t := by
  unfold textfileStep at hstep
  split at hstep
  · rename_i running hmain
    have hquiet := h.tied.quiet (by simp [hmain]) (by simp [hmain]) (by simp [hmain])
    have hnext : ∀ reason, atEnd running ≠ .returned reason := by
      intro reason
      cases running <;> exact Main.noConfusion
    split_ifs at hstep <;> cases hstep <;> exact h.goOn hquiet hnext _ _ _ _
  · cases hstep

/-- `run` returns when `shutdown` does. -/
theorem loopInv_shutdownStep (h : LoopInv s) (hstep : shutdownStep s = some t) : LoopInv t := by
  unfold shutdownStep at hstep
  split at hstep
  · rename_i reason hmain
    obtain ⟨next, hnext, ht⟩ := Option.map_eq_some_iff.mp hstep
    have hidle : s.pool.submitter () = .idle := by
      by_contra hne
      obtain ⟨ready, signalled, hsubmitting⟩ := h.tied.submitting hne
      rw [hmain] at hsubmitting
      cases hsubmitting
    have hpool := h.poolStep hnext
    obtain ⟨hsubmitter, hsubmitted⟩ := shutdownStep_frame hnext
    rw [← hsubmitter] at hidle
    split at ht <;> subst ht
    · rename_i hphase
      exact ⟨hpool, ⟨fun hne => absurd hidle hne, fun _ => ⟨reason, .inr rfl⟩,
        fun _ => ⟨reason, rfl⟩, fun _ => hphase⟩, hsubmitted.trans h.submitted⟩
    · rename_i hphase
      refine ⟨hpool, ⟨fun hne => absurd hidle hne, fun _ => ⟨reason, .inl hmain⟩,
        fun heq => absurd heq hphase, ?_⟩, hsubmitted.trans h.submitted⟩
      simp [hmain]
  · cases hstep

/-- **One step of `run`**, on the main thread or on a worker. -/
theorem loopInv_step {a : Action κ Fd} (h : LoopInv s) (hstep : step cfg s a = some t) :
    LoopInv t := by
  cases a with
  | poll now result => exact loopInv_pollStep h hstep
  | accept result => exact loopInv_acceptStep h hstep
  | submit chosen => exact loopInv_submitStep h hstep
  | signals read =>
      simp only [step] at hstep
      split at hstep
      · rename_i signalled hmain
        have hquiet := h.tied.quiet (by simp [hmain]) (by simp [hmain]) (by simp [hmain])
        cases hstep
        exact h.goOn hquiet (fun _ => Main.noConfusion) _ _ _ _
      · cases hstep
  | textfile began ended => exact loopInv_textfileStep h hstep
  | shutdown => exact loopInv_shutdownStep h hstep
  | work w =>
      obtain ⟨next, hnext, rfl⟩ := Option.map_eq_some_iff.mp hstep
      obtain ⟨hsubmitter, hshutdown, hsubmitted⟩ := workerStep_frame hnext
      refine ⟨h.poolStep hnext, ?_, hsubmitted.trans h.submitted⟩
      obtain ⟨hsubmitting, hstopping, hreturned⟩ := h.tied
      refine ⟨?_, ?_, ?_⟩
      · rwa [hsubmitter]
      · rwa [hshutdown]
      · rwa [hshutdown]

omit [DecidableEq κ] in
/-- A loop that has not begun has accepted nothing. -/
theorem loopInv_start (now : Int) : LoopInv (start now : State κ Fd) where
  pool := ⟨ThreadPool.inv_start, ThreadPool.owned_start, ThreadPool.accounts_start, rfl, rfl⟩
  tied := by
    refine ⟨fun hne => absurd rfl hne, fun hne => absurd rfl hne, ?_⟩
    simp [start, ThreadPool.start]
  submitted := rfl

/-- **Whole runs** keep what holds of the loop and its pool. -/
theorem loopInv_of_run {schedule : List (Action κ Fd)} (hs : LoopInv s)
    (hrun : runFrom (step cfg) s schedule = some t) : LoopInv t :=
  invariant_of_run (fun _ _ _ h hstep => loopInv_step h hstep) hs hrun

/-- One worker: connection `7` is accepted and handled, a textfile is written, and then
`SIGTERM` comes. -/
def servedRun : List (Action Unit Nat) :=
  [.work (), .work (), .work (), .poll 5 (.ready [true] false), .accept (.accepted 7), .submit (),
    .submit (), .submit (), .accept .wouldBlock, .work (), .work (), .work (), .signals none,
    .textfile 6 8, .work (), .poll 9 (.ready [false] true), .signals (some 15), .textfile 10 10,
    .shutdown, .shutdown, .shutdown, .shutdown, .work (), .work (), .work (), .shutdown]

def withTextfile : Config := { prometheusTextfile := ascii "m.prom" }

/-- Where the accepted connections are: the workers take them in the order in which they were
accepted, and after `run` each was handled once. -/
structure Served (s : State κ Fd) : Prop where
  order : s.fds = s.pool.taken ++ s.pool.queue ++ inSubmit (s.pool.submitter ())
  taken : ∀ fd, s.pool.taken.count fd =
    tally (ThreadPool.Worker.inHand fd) s.pool.worker + s.pool.handled.count fd
  closed : s.pool.closed = []
  finished : ∀ reason, s.main = .returned reason →
    s.pool.handled.Perm s.fds ∧ ∀ w, s.pool.worker w = .exited

omit [DecidableEq κ] in
/-- What is known of the pool says how the accepted connections were served. -/
theorem LoopInv.served [Nonempty κ] (h : LoopInv s) : Served s := by
  have horder : s.fds = s.pool.taken ++ s.pool.queue ++ inSubmit (s.pool.submitter ()) := by
    rw [← h.submitted, h.pool.lined.order, h.pool.accounts.order]
  refine ⟨horder, h.pool.accounts.taken, h.pool.lined.closed, fun reason hmain => ?_⟩
  have hreturned : s.pool.shutdown = .returned := h.tied.returned.mpr ⟨reason, hmain⟩
  have hexited := h.pool.inv.joined hreturned
  refine ⟨?_, hexited⟩
  have hqueue : s.pool.queue = [] := by
    obtain ⟨w⟩ := ‹Nonempty κ›
    exact (h.pool.inv.exits w (hexited w)).2
  have hsubmitter : s.pool.submitter () = .idle := by
    by_contra hne
    obtain ⟨ready, signalled, hsubmitting⟩ := h.tied.submitting hne
    rw [hmain] at hsubmitting
    cases hsubmitting
  have hhand : ∀ fd, tally (ThreadPool.Worker.inHand fd) s.pool.worker = 0 := by
    intro fd
    apply tally_eq_zero
    intro w
    rw [hexited w]
    rfl
  rw [hqueue, hsubmitter, List.append_nil, inSubmit, List.append_nil] at horder
  rw [horder, List.perm_iff_count]
  intro fd
  rw [h.pool.accounts.taken fd, hhand fd, Nat.zero_add]

/-- **Every accepted connection is handled once before `run` returns**, whatever the threads,
the clients and the signals do. -/
theorem accepted_handled [Nonempty κ] {now : Int} {schedule : List (Action κ Fd)}
    (hrun : runFrom (step cfg) (start now) schedule = some t) : Served t :=
  (loopInv_of_run (loopInv_start now) hrun).served

/-- One connection is accepted and handled before the signal ends the loop. -/
theorem accepted_handled_servedRun : ∃ t : State Unit Nat, Served t ∧
    t.main = .returned .signal ∧ t.pool.handled = [7] := by
  obtain ⟨t, hrun, ht⟩ := exists_of_runFrom (step withTextfile) (start 5) servedRun
    (fun t => t.main = .returned .signal ∧ t.pool.handled = [7]) (by decide +kernel)
  exact ⟨t, accepted_handled hrun, of_decide_eq_true ht⟩

end

section

variable {κ Fd : Type*} {cfg : Config} {s t : State κ Fd}

/-- The time between two textfiles. -/
def interval (cfg : Config) : Int := cfg.prometheusTextfileIntervalSeconds * nsPerSecond

/-- A call of `poll` waits for ever when there is no textfile, and else until the last
millisecond before it is due. -/
structure WakesInTime (cfg : Config) (call : PollCall) : Prop where
  forever : textfileEnabled cfg = false → call.timeoutMs = -1
  range : textfileEnabled cfg = true →
    0 ≤ call.timeoutMs ∧ call.timeoutMs ≤ cfg.prometheusTextfileIntervalSeconds * 1000
  notLate : textfileEnabled cfg = true → call.now < call.due →
    call.now + call.timeoutMs * 1000000 ≤ call.due ∧
      call.due < call.now + (call.timeoutMs + 1) * 1000000
  overdue : textfileEnabled cfg = true → call.due ≤ call.now → call.timeoutMs = 0

/-- The cast of a small timeout changes nothing. -/
theorem castInt_of_small {n : Int} (hlow : 0 ≤ n) (hhigh : n < 2 ^ 31) : castInt n = n := by
  unfold castInt
  rw [Int.bmod_eq_of_le] <;> omega

/-- **`poll` wakes in time for the next textfile**, which is due within the interval. -/
theorem wakesInTime_pollTimeout (hlimits : SettingsWithinLimits cfg) {now due : Int}
    (hdue : due ≤ now + interval cfg) : WakesInTime cfg ⟨now, pollTimeout cfg due now, due⟩ := by
  obtain ⟨hlow, hhigh⟩ := hlimits.prometheusTextfileIntervalSeconds
  unfold interval nsPerSecond at hdue
  unfold pollTimeout
  cases henabled : textfileEnabled cfg with
  | false => exact ⟨fun _ => rfl, by simp [henabled], by simp [henabled], by simp [henabled]⟩
  | true =>
      simp only [if_true]
      by_cases hearly : now < due
      · have hdiv : (due - now).tdiv 1000000 = (due - now) / 1000000 :=
          Int.tdiv_eq_ediv_of_nonneg (by omega)
        have hms : (if (due - now) / 1000000 > 0 then (due - now) / 1000000 else 0) =
            (due - now) / 1000000 := by
          split_ifs <;> omega
        rw [hdiv, hms, castInt_of_small (by omega) (by omega)]
        refine ⟨by simp [henabled], fun _ => ?_, fun _ _ => ?_, fun _ hlate => ?_⟩ <;>
          dsimp only at * <;> omega
      · have hneg : (due - now).tdiv 1000000 ≤ 0 := by
          have hpositive := Int.tdiv_nonneg (a := now - due) (b := 1000000) (by omega) (by omega)
          rw [← Int.neg_sub, Int.neg_tdiv]
          omega
        rw [if_neg (by omega), castInt_of_small (by omega) (by omega)]
        refine ⟨by simp [henabled], fun _ => ?_, fun _ hlt => absurd hlt hearly, fun _ _ => rfl⟩
        dsimp only
        omega

/-- What is known of the times: the calls of `poll` wake in time, the textfiles are at least an
interval apart, and the next one is due an interval after the last. -/
structure OnTime (cfg : Config) (s : State κ Fd) : Prop where
  polls : ∀ call ∈ s.polls, WakesInTime cfg call
  apart : s.writes.Pairwise fun earlier later => earlier.ended + interval cfg ≤ later.began
  due : ∀ write ∈ s.writes, write.ended + interval cfg ≤ s.nextTextfileWrite
  soon : s.nextTextfileWrite ≤ s.clock + interval cfg
  disabled : textfileEnabled cfg = false → s.writes = []

/-- The limits of the configuration exclude an interval below zero. -/
theorem interval_nonneg (hlimits : SettingsWithinLimits cfg) : 0 ≤ interval cfg := by
  have hpositive := hlimits.prometheusTextfileIntervalSeconds.1
  unfold interval nsPerSecond
  omega

/-- What moves no times keeps what is known of them. -/
theorem OnTime.frame (h : OnTime cfg s) (hpolls : t.polls = s.polls) (hwrites : t.writes = s.writes)
    (hnext : t.nextTextfileWrite = s.nextTextfileWrite) (hclock : t.clock = s.clock) :
    OnTime cfg t where
  polls := hpolls ▸ h.polls
  apart := hwrites ▸ h.apart
  due := by
    rw [hwrites, hnext]
    exact h.due
  soon := by
    rw [hnext, hclock]
    exact h.soon
  disabled := by
    rw [hwrites]
    exact h.disabled

/-- `poll` gets a timeout that ends when the textfile is due. -/
theorem onTime_pollStep (hlimits : SettingsWithinLimits cfg) {now : Int} {result : PollResult}
    (h : OnTime cfg s) (hstep : pollStep cfg s now result = some t) : OnTime cfg t := by
  have hinterval := interval_nonneg hlimits
  obtain ⟨hpolls, hapart, hdue, hsoon, hdisabled⟩ := h
  unfold pollStep at hstep
  split at hstep
  · split_ifs at hstep with hlater
    have hcalls : ∀ call ∈ s.polls ++
        [⟨now, pollTimeout cfg s.nextTextfileWrite now, s.nextTextfileWrite⟩],
        WakesInTime cfg call := by
      intro call hcall
      rcases List.mem_append.mp hcall with hcall | hcall
      · exact hpolls call hcall
      · rw [List.mem_singleton.mp hcall]
        exact wakesInTime_pollTimeout hlimits (by omega)
    have hnext : s.nextTextfileWrite ≤ now + interval cfg := by omega
    cases result <;> cases hstep <;> exact ⟨hcalls, hapart, hdue, hnext, hdisabled⟩
  · cases hstep

/-- A textfile is written when it is due, so an interval after the one before. -/
theorem onTime_textfileStep (hlimits : SettingsWithinLimits cfg) {began ended : Int}
    (h : OnTime cfg s) (hstep : textfileStep cfg s began ended = some t) : OnTime cfg t := by
  have hinterval := interval_nonneg hlimits
  obtain ⟨hpolls, hapart, hdue, hsoon, hdisabled⟩ := h
  unfold textfileStep at hstep
  split at hstep
  · split_ifs at hstep with henabled hclock hwrites
    · cases hstep
      refine ⟨hpolls, ?_, ?_, le_refl _,
        fun hoff => absurd (henabled.symm.trans hoff) Bool.noConfusion⟩
      · refine List.pairwise_append.mpr ⟨hapart, List.pairwise_singleton _ _, ?_⟩
        intro earlier hearlier later hlater
        rw [List.mem_singleton.mp hlater]
        exact (hdue earlier hearlier).trans hwrites
      · intro write hwrite
        rcases List.mem_append.mp hwrite with hwrite | hwrite
        · have hbefore := (hdue write hwrite).trans hwrites
          change _ ≤ ended + interval cfg
          omega
        · rw [List.mem_singleton.mp hwrite]
          exact le_refl _
    · cases hstep
      exact ⟨hpolls, hapart, hdue, by dsimp only; omega, hdisabled⟩
    · cases hstep
      exact ⟨hpolls, hapart, hdue, hsoon, hdisabled⟩
  · cases hstep

variable [DecidableEq κ] [Fintype κ]

/-- Only `poll` and the textfile take time. -/
theorem onTime_step (hlimits : SettingsWithinLimits cfg) {a : Action κ Fd} (h : OnTime cfg s)
    (hstep : step cfg s a = some t) : OnTime cfg t := by
  cases a with
  | poll now result => exact onTime_pollStep hlimits h hstep
  | textfile began ended => exact onTime_textfileStep hlimits h hstep
  | accept result =>
      simp only [step, acceptStep] at hstep
      split at hstep
      · cases result with
        | accepted fd =>
            obtain ⟨next, -, rfl⟩ := Option.map_eq_some_iff.mp hstep
            exact h.frame rfl rfl rfl rfl
        | interrupted | wouldBlock | failed =>
            cases hstep
            exact h.frame rfl rfl rfl rfl
      · cases hstep
  | submit chosen =>
      simp only [step, submitStep] at hstep
      split at hstep
      · obtain ⟨next, -, ht⟩ := Option.map_eq_some_iff.mp hstep
        split at ht <;> subst ht <;> exact h.frame rfl rfl rfl rfl
      · cases hstep
  | signals read =>
      simp only [step] at hstep
      split at hstep <;> cases hstep
      exact h.frame rfl rfl rfl rfl
  | shutdown =>
      simp only [step, shutdownStep] at hstep
      split at hstep
      · obtain ⟨next, -, ht⟩ := Option.map_eq_some_iff.mp hstep
        split at ht <;> subst ht <;> exact h.frame rfl rfl rfl rfl
      · cases hstep
  | work w =>
      obtain ⟨next, -, rfl⟩ := Option.map_eq_some_iff.mp hstep
      exact h.frame rfl rfl rfl rfl

/-- **The schedule of `poll` and the textfile.**  No call of `poll` sleeps past the moment when
the textfile is due or wakes a millisecond early, none has a timeout that does not fit an `int`,
and there is at least an interval between two textfiles. -/
theorem textfile_schedule (hlimits : SettingsWithinLimits cfg) {now : Int}
    {schedule : List (Action κ Fd)} (hrun : runFrom (step cfg) (start now) schedule = some t) :
    OnTime cfg t := by
  have hinterval := interval_nonneg hlimits
  refine invariant_of_run (fun _ _ _ h hstep => onTime_step hlimits h hstep) ?_ hrun
  exact ⟨by simp [start], List.Pairwise.nil, by simp [start], by simp only [start]; omega,
    fun _ => rfl⟩

omit [DecidableEq κ] [Fintype κ] in
/-- The settings of the sample are within the limits. -/
theorem withinLimits_withTextfile : SettingsWithinLimits withTextfile := by
  constructor
  case httpAuthTokens | prometheusMqttJsonTopics => exact List.forall_mem_nil _
  case subscribeTopics | webhookTopics => exact List.forall_mem_singleton.mpr isEntry_hash
  all_goals decide

/-- Nobody connects; the textfile is written, not due yet, and written again. -/
def idleRun (cfg : Config) : List (Action Unit Nat) :=
  [.poll 5 (.ready [false] false), .signals none, .textfile 6 8, .poll 9 (.ready [false] false),
    .signals none, .textfile 10 10, .poll (8 + interval cfg) (.ready [false] false), .signals none,
    .textfile (8 + interval cfg) (9 + interval cfg)]

/-- The loop writes the textfile twice while nobody connects. -/
theorem textfile_schedule_idleRun :
    ∃ t : State Unit Nat, OnTime withTextfile t ∧ t.writes.length = 2 := by
  obtain ⟨t, hrun, ht⟩ := exists_of_runFrom (step withTextfile) (start 5) (idleRun withTextfile)
    (fun t => t.writes.length == 2) (by decide +kernel)
  exact ⟨t, textfile_schedule withinLimits_withTextfile hrun, eq_of_beq ht⟩

end

end AcceptLoop

end Nshmqtt
