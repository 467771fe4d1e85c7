import Nshmqtt.Config
import Nshmqtt.TransitionRuns
import Mathlib.Logic.Function.Basic

/-!
# Stopping a queue worker

`WebhookClient` and the subscribe side of `MqttClient` have the same shape: a
worker waits on a condition variable for its flag to be cleared or its queue to
be filled, producers push under the mutex and notify, and `stop` clears the
flag, notifies and joins.  `wait` tests its predicate while it holds the mutex
and otherwise releases it and blocks in one step; a notification reaches only a
thread that is blocked at that moment.

`stop` clears the flag without the mutex.  Flag and notification may therefore
both fall between the worker's test and its blocking, and then nobody wakes the
worker and the join never returns.  A notification at any other moment cannot be
lost.
-/

namespace Nshmqtt

open TransitionRuns

namespace WorkerShutdown

/-- What distinguishes the two clients: the bound of the queue, and whether a
producer looks at the flag before it takes the mutex. -/
structure Client where
  bound : Int
  checksRunning : Bool

/-- `WebhookClient`: `enqueue` is a no-op once the flag is cleared. -/
def webhookClient (cfg : Config) : Client := ⟨cfg.webhookQueueSize, true⟩

/-- The subscribe side of `MqttClient`: `on_message_arrived` is called as long as
there are connections. -/
def subscribeClient (cfg : Config) : Client := ⟨cfg.mqttQueueSize, false⟩

/-- The point the worker has reached in its loop. -/
inductive Worker (Msg : Type*)
  /-- At the test of the flag in the loop's head. -/
  | head
  /-- About to take the mutex. -/
  | locking
  /-- With the mutex, about to test the predicate of `wait`. -/
  | testing
  /-- With the mutex, the predicate was false, about to release and block. -/
  | blocking
  | blocked
  /-- Notified, about to take the mutex again. -/
  | woken
  /-- With the mutex, the predicate was true. -/
  | serving
  /-- Without the mutex, handling a message. -/
  | handling (msg : Msg)
  | exited
  deriving DecidableEq

/-- The point a producer has reached. -/
inductive Producer (Msg : Type*)
  | idle
  /-- About to take the mutex. -/
  | admitted (msg : Msg)
  /-- With the mutex. -/
  | pushing (msg : Msg)
  /-- Without the mutex, about to notify. -/
  | pushed
  deriving DecidableEq

/-- The point `stop` has reached. -/
inductive Stopper
  | idle
  /-- The flag is cleared. -/
  | flagged
  /-- `notify_all` is issued. -/
  | notified
  /-- The connections are gone; in `join`. -/
  | joining
  | returned
  deriving DecidableEq

variable {Msg ι : Type*}

structure State (Msg ι : Type*) where
  running : Bool
  queue : List Msg
  locked : Bool
  worker : Worker Msg
  producer : ι → Producer Msg
  stopper : Stopper

inductive Action (Msg ι : Type*)
  /-- The worker's next step. -/
  | work
  /-- A producer is called with a message. -/
  | arrive (i : ι) (msg : Msg)
  /-- A producer's next step. -/
  | produce (i : ι)
  /-- The next step of `stop`. -/
  | stop
  deriving DecidableEq

/-- A notification: a blocked worker wakes up, any other does not notice. -/
def State.notify (s : State Msg ι) : State Msg ι :=
  match s.worker with
  | .blocked => { s with worker := .woken }
  | _ => s

def workerStep (s : State Msg ι) : Option (State Msg ι) :=
  match s.worker with
  | .head => some { s with worker := if s.running then .locking else .exited }
  | .locking => if s.locked then none else some { s with locked := true, worker := .testing }
  | .testing =>
      some { s with worker := if !s.running || !s.queue.isEmpty then .serving else .blocking }
  | .blocking => some { s with locked := false, worker := .blocked }
  | .blocked => none
  | .woken => if s.locked then none else some { s with locked := true, worker := .testing }
  | .serving =>
      match s.queue with
      | [] => some { s with locked := false, worker := if s.running then .head else .exited }
      | msg :: rest => some { s with locked := false, queue := rest, worker := .handling msg }
  | .handling _ => some { s with worker := .head }
  | .exited => none

variable [DecidableEq ι]

def State.moveProducer (s : State Msg ι) (i : ι) (p : Producer Msg) : State Msg ι :=
  { s with producer := Function.update s.producer i p }

/-- Whether a producer that is called now gets as far as the mutex. -/
def admits (client : Client) (s : State Msg ι) : Bool :=
  if client.checksRunning then s.running else s.stopper ∉ [.joining, .returned]

def producerStep (client : Client) (s : State Msg ι) (i : ι) : Option (State Msg ι) :=
  match s.producer i with
  | .idle => none
  | .admitted msg =>
      if s.locked then none else some ({ s with locked := true }.moveProducer i (.pushing msg))
  | .pushing msg =>
      if client.bound ≤ s.queue.length then some ({ s with locked := false }.moveProducer i .idle)
      else
        some ({ s with locked := false, queue := s.queue ++ [msg] }.moveProducer i .pushed)
  | .pushed => some (s.notify.moveProducer i .idle)

def stopStep (s : State Msg ι) : Option (State Msg ι) :=
  match s.stopper with
  | .idle => some { s with running := false, stopper := .flagged }
  | .flagged => some { s.notify with stopper := .notified }
  | .notified => some { s with stopper := .joining }
  | .joining =>
      match s.worker with
      | .exited => some { s with stopper := .returned }
      | _ => none
  | .returned => none

def step (client : Client) (s : State Msg ι) : Action Msg ι → Option (State Msg ι)
  | .work => workerStep s
  | .arrive i msg =>
      match s.producer i with
      | .idle => if admits client s then some (s.moveProducer i (.admitted msg)) else some s
      | _ => none
  | .produce i => producerStep client s i
  | .stop => stopStep s

/-- The worker has just been started, and nobody else is active. -/
def start (Msg ι : Type*) : State Msg ι := ⟨true, [], false, .head, fun _ => .idle, .idle⟩

/-- `stop` has cleared the flag and notified. -/
def Stopper.hasNotified : Stopper → Bool
  | .idle => false
  | .flagged => false
  | _ => true

/-- Blocked in `wait`, or on the way into it. -/
def Worker.waits : Worker Msg → Bool
  | .blocking => true
  | .blocked => true
  | _ => false

/-- `stop` has cleared the flag and notified and has not returned, the worker is
blocked or about to be, no producer is active and none can become active. -/
structure Stranded (client : Client) (s : State Msg ι) : Prop where
  flag : s.running = false
  stopping : s.stopper = .notified ∨ s.stopper = .joining
  waits : s.worker.waits = true
  quiet : ∀ i, s.producer i = .idle
  closed : admits client s = false

variable {client : Client} {s t : State Msg ι}

omit [DecidableEq ι] in
/-- A stranded worker can only go on to block. -/
theorem workerStep_of_waits (hwaits : s.worker.waits = true) (h : workerStep s = some t) :
    t = { s with locked := false, worker := .blocked } := by
  unfold workerStep at h
  cases hworker : s.worker with
  | blocking =>
      simp only [hworker, Option.some.injEq] at h
      exact h.symm
  | blocked => simp only [hworker, reduceCtorEq] at h
  | head => simp [hworker, Worker.waits] at hwaits
  | locking => simp [hworker, Worker.waits] at hwaits
  | testing => simp [hworker, Worker.waits] at hwaits
  | woken => simp [hworker, Worker.waits] at hwaits
  | serving => simp [hworker, Worker.waits] at hwaits
  | handling msg => simp [hworker, Worker.waits] at hwaits
  | exited => simp [hworker, Worker.waits] at hwaits

/-- A stranded worker stays stranded, whatever happens. -/
theorem stranded_step (s : State Msg ι) (a : Action Msg ι) (t : State Msg ι)
    (hs : Stranded client s) (h : step client s a = some t) : Stranded client t := by
  cases a with
  | work =>
      have ht := workerStep_of_waits hs.waits h
      subst ht
      exact ⟨hs.flag, hs.stopping, rfl, hs.quiet, hs.closed⟩
  | arrive i msg =>
      simp only [step, hs.quiet i, hs.closed, Bool.false_eq_true, if_false,
        Option.some.injEq] at h
      exact h ▸ hs
  | produce i =>
      simp only [step, producerStep, hs.quiet i, reduceCtorEq] at h
  | stop =>
      simp only [step, stopStep] at h
      rcases hs.stopping with hstop | hstop
      · rw [hstop] at h
        simp only [Option.some.injEq] at h
        subst h
        refine ⟨hs.flag, Or.inr rfl, hs.waits, hs.quiet, ?_⟩
        have hclosed := hs.closed
        unfold admits at hclosed ⊢
        split_ifs at hclosed ⊢ with hchecks
        · exact hclosed
        · rfl
      · -- the join waits for a worker that has exited
        rw [hstop] at h
        have hwaits := hs.waits
        simp only at h
        split at h
        · rename_i hexited
          rw [hexited] at hwaits
          cases hwaits
        · cases h

/-- From a stranded state `stop` never returns. -/
theorem stop_never_returns {schedule : List (Action Msg ι)} (hs : Stranded client s)
    (hrun : runFrom (step client) s schedule = some t) : t.stopper ≠ .returned := by
  have hstranded := invariant_of_run stranded_step hs hrun
  intro hreturned
  rcases hstranded.stopping with h | h
  · rw [h] at hreturned
    cases hreturned
  · rw [h] at hreturned
    cases hreturned

/-- The condition on a step: `stop` does not notify while the worker stands
between its false test and its blocking. -/
def NotifiesOutsideWait (s : State Msg ι) : Action Msg ι → Prop
  | .stop => s.stopper = .flagged → s.worker ≠ .blocking
  | _ => True

instance [DecidableEq Msg] (s : State Msg ι) : ∀ a, Decidable (NotifiesOutsideWait s a)
  | .stop => inferInstanceAs (Decidable (s.stopper = .flagged → s.worker ≠ .blocking))
  | .work => .isTrue trivial
  | .arrive _ _ => .isTrue trivial
  | .produce _ => .isTrue trivial

/-- The flag stays cleared, and after the notification the worker does not wait
any more. -/
structure Inv (s : State Msg ι) : Prop where
  flag : s.stopper ≠ .idle → s.running = false
  awake : s.stopper.hasNotified = true → s.worker.waits = false

omit [DecidableEq ι] in
/-- To have notified is to have begun. -/
theorem hasNotified_ne_idle {stopper : Stopper} (h : stopper.hasNotified = true) :
    stopper ≠ .idle := by
  intro hidle
  rw [hidle] at h
  cases h

omit [DecidableEq ι] in
/-- A notification leaves no worker blocked that was blocked before. -/
theorem waits_notify (hs : s.worker ≠ .blocking) : s.notify.worker.waits = false := by
  unfold State.notify
  cases hworker : s.worker with
  | blocking => exact absurd hworker hs
  | blocked => rfl
  | head => simp only [hworker]; rfl
  | locking => simp only [hworker]; rfl
  | testing => simp only [hworker]; rfl
  | woken => simp only [hworker]; rfl
  | serving => simp only [hworker]; rfl
  | handling msg => simp only [hworker]; rfl
  | exited => simp only [hworker]; rfl

omit [DecidableEq ι] in
/-- A notification that meets nobody at the wait changes nothing. -/
theorem notify_eq_self (h : s.worker.waits = false) : s.notify = s := by
  unfold State.notify
  split
  · rename_i hblocked
    rw [hblocked] at h
    cases h
  · rfl

omit [DecidableEq ι] in
/-- With the flag cleared the worker's own steps do not lead it into the wait. -/
theorem waits_workerStep (hflag : s.running = false) (hwaits : s.worker.waits = false)
    (h : workerStep s = some t) : t.worker.waits = false := by
  unfold workerStep at h
  cases hworker : s.worker with
  | head =>
      simp only [hworker, hflag, Option.some.injEq] at h
      exact h ▸ rfl
  | locking =>
      simp only [hworker] at h
      split_ifs at h
      exact Option.some.inj h ▸ rfl
  | testing =>
      simp only [hworker, hflag, Option.some.injEq] at h
      exact h ▸ rfl
  | woken =>
      simp only [hworker] at h
      split_ifs at h
      exact Option.some.inj h ▸ rfl
  | serving =>
      simp only [hworker] at h
      split at h
      · simp only [hflag] at h
        exact Option.some.inj h ▸ rfl
      · exact Option.some.inj h ▸ rfl
  | handling msg =>
      simp only [hworker] at h
      exact Option.some.inj h ▸ rfl
  | exited => simp only [hworker, reduceCtorEq] at h
  | blocking =>
      rw [hworker] at hwaits
      cases hwaits
  | blocked =>
      rw [hworker] at hwaits
      cases hwaits

omit [DecidableEq ι] in
/-- The worker touches neither the flag nor `stop`. -/
theorem workerStep_frame (h : workerStep s = some t) :
    t.running = s.running ∧ t.stopper = s.stopper := by
  unfold workerStep at h
  split at h
  · exact Option.some.inj h ▸ ⟨rfl, rfl⟩
  · split_ifs at h
    exact Option.some.inj h ▸ ⟨rfl, rfl⟩
  · exact Option.some.inj h ▸ ⟨rfl, rfl⟩
  · exact Option.some.inj h ▸ ⟨rfl, rfl⟩
  · cases h
  · split_ifs at h
    exact Option.some.inj h ▸ ⟨rfl, rfl⟩
  · split at h
    · exact Option.some.inj h ▸ ⟨rfl, rfl⟩
    · exact Option.some.inj h ▸ ⟨rfl, rfl⟩
  · exact Option.some.inj h ▸ ⟨rfl, rfl⟩
  · cases h

omit [DecidableEq ι] in
/-- A notification touches the worker alone. -/
theorem notify_frame (s : State Msg ι) :
    s.notify.running = s.running ∧ s.notify.stopper = s.stopper := by
  unfold State.notify
  split
  · exact ⟨rfl, rfl⟩
  · exact ⟨rfl, rfl⟩

/-- A producer touches neither, and wakes the worker if anything. -/
theorem producerStep_frame {i : ι} (h : producerStep client s i = some t) :
    t.running = s.running ∧ t.stopper = s.stopper ∧
      (s.worker.waits = false → t.worker.waits = false) := by
  unfold producerStep at h
  split at h
  · cases h
  · split_ifs at h
    exact Option.some.inj h ▸ ⟨rfl, rfl, fun hwaits => hwaits⟩
  · split_ifs at h
    · exact Option.some.inj h ▸ ⟨rfl, rfl, fun hwaits => hwaits⟩
    · exact Option.some.inj h ▸ ⟨rfl, rfl, fun hwaits => hwaits⟩
  · rw [Option.some.injEq] at h
    subst h
    obtain ⟨hrunning, hstopper⟩ := notify_frame s
    refine ⟨hrunning, hstopper, fun hwaits => ?_⟩
    show s.notify.worker.waits = false
    rw [notify_eq_self hwaits]
    exact hwaits

/-- **One step** keeps the invariant while no notification is lost. -/
theorem inv_step (s : State Msg ι) (a : Action Msg ι) (t : State Msg ι) (hs : Inv s)
    (hok : NotifiesOutsideWait s a) (h : step client s a = some t) : Inv t := by
  cases a with
  | work =>
      obtain ⟨hrunning, hstopper⟩ := workerStep_frame h
      refine ⟨fun hstop => hrunning.trans (hs.flag (hstopper ▸ hstop)), ?_⟩
      intro hnotified
      rw [hstopper] at hnotified
      exact waits_workerStep (hs.flag (hasNotified_ne_idle hnotified)) (hs.awake hnotified) h
  | arrive i msg =>
      simp only [step] at h
      split at h
      · split_ifs at h
        · exact Option.some.inj h ▸ ⟨hs.flag, hs.awake⟩
        · exact Option.some.inj h ▸ hs
      · cases h
  | produce i =>
      obtain ⟨hrunning, hstopper, hwaits⟩ := producerStep_frame h
      refine ⟨fun hstop => hrunning.trans (hs.flag (hstopper ▸ hstop)), ?_⟩
      intro hnotified
      rw [hstopper] at hnotified
      exact hwaits (hs.awake hnotified)
  | stop =>
      simp only [step, stopStep] at h
      split at h
      · rw [Option.some.injEq] at h
        subst h
        exact ⟨fun _ => rfl, fun hnotified => by cases hnotified⟩
      · -- the notification itself
        rename_i hstop
        rw [Option.some.injEq] at h
        subst h
        have hflag := hs.flag (by rw [hstop]; decide)
        exact ⟨fun _ => (notify_frame s).1.trans hflag, fun _ => waits_notify (hok hstop)⟩
      · rename_i hstop
        rw [Option.some.injEq] at h
        subst h
        exact ⟨fun _ => hs.flag (by rw [hstop]; decide), fun _ => hs.awake (by rw [hstop]; rfl)⟩
      · rename_i hstop
        split at h
        · rw [Option.some.injEq] at h
          subst h
          exact ⟨fun _ => hs.flag (by rw [hstop]; decide),
            fun _ => hs.awake (by rw [hstop]; rfl)⟩
        · cases h
      · cases h

/-- **The wakeup is not lost** in a run in which `stop` does not notify between
the worker's test and its blocking: once it has notified the worker does not
wait, so no state is stranded. -/
theorem awake_of_notifiesOutsideWait (client : Client) {schedule : List (Action Msg ι)}
    {t : State Msg ι}
    (hok : StepsMeet (step client) NotifiesOutsideWait (start Msg ι) schedule)
    (hrun : runFrom (step client) (start Msg ι) schedule = some t) :
    (t.stopper.hasNotified = true → t.worker.waits = false) ∧ ¬ Stranded client t := by
  have hinv := invariant_of_guarded_run inv_step
    (show Inv (start Msg ι) from ⟨fun h => absurd rfl h, fun h => by cases h⟩) hok hrun
  refine ⟨hinv.awake, ?_⟩
  intro hstranded
  have hnotified : t.stopper.hasNotified = true := by
    rcases hstranded.stopping with h | h
    · rw [h]
      rfl
    · rw [h]
      rfl
  have hwaits := hinv.awake hnotified
  rw [hstranded.waits] at hwaits
  cases hwaits

/-- The worker blocks first and `stop` wakes it, for the webhook client. -/
theorem awake_notified_blocked : ∃ t : State Nat Unit,
    runFrom (step (webhookClient {})) (start Nat Unit)
      [.work, .work, .work, .work, .stop, .stop, .work, .work, .work, .stop, .stop] = some t ∧
    t.stopper = .returned ∧ ¬ Stranded (webhookClient {}) t := by
  obtain ⟨t, hrun, hreturned⟩ := exists_of_runFrom
    (step (webhookClient {})) (start Nat Unit)
    [.work, .work, .work, .work, .stop, .stop, .work, .work, .work, .stop, .stop]
    (fun t => decide (t.stopper = .returned)) (by decide)
  rw [decide_eq_true_eq] at hreturned
  exact ⟨t, hrun, hreturned, (awake_of_notifiesOutsideWait _ (by decide) hrun).2⟩

/-- The worker tests its predicate, `stop` clears the flag and notifies, and the
worker blocks. -/
theorem stranded_schedule (client : Client) :
    ∃ t : State Nat Unit, runFrom (step client) (start Nat Unit)
      [.work, .work, .work, .stop, .stop, .stop, .work] = some t ∧ Stranded client t := by
  refine ⟨⟨false, [], false, .blocked, fun _ => .idle, .joining⟩, rfl,
    ⟨rfl, Or.inr rfl, rfl, fun _ => rfl, ?_⟩⟩
  unfold admits
  split_ifs
  · rfl
  · rfl

/-- **Both clients can hang in `stop`.** -/
theorem stop_hangs :
    (¬ ∀ (schedule : List (Action Nat Unit)) (t : State Nat Unit),
      runFrom (step (webhookClient {})) (start Nat Unit) schedule = some t →
        ¬ Stranded (webhookClient {}) t) ∧
    (¬ ∀ (schedule : List (Action Nat Unit)) (t : State Nat Unit),
      runFrom (step (subscribeClient {})) (start Nat Unit) schedule = some t →
        ¬ Stranded (subscribeClient {}) t) := by
  constructor
  · intro hclaim
    obtain ⟨t, hrun, hstranded⟩ := stranded_schedule (webhookClient {})
    exact hclaim _ t hrun hstranded
  · intro hclaim
    obtain ⟨t, hrun, hstranded⟩ := stranded_schedule (subscribeClient {})
    exact hclaim _ t hrun hstranded

end WorkerShutdown

end Nshmqtt
