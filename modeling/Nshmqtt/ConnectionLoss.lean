import Nshmqtt.Server
import Nshmqtt.TransitionRuns

/-!
# Losing a connection

One connection of the MQTT pool: its worker connects, subscribes and publishes,
and the client library calls `on_connection_lost` from a thread of its own.  The
worker takes the session for live as long as `connected_` is true, and the
callback clears it.

A session exists from the moment `MQTTClient_connect` returns success, but
`connected_` becomes true only after that.  A callback in between clears a flag
that is still false, and the worker then sets it: the lost session counts as
live from there on, and only a failing publish would correct this.  A callback
at any other moment leads to a reconnect.
-/

namespace Nshmqtt

open ByteStrings TransitionRuns

/-- The counter of a publish's outcome. -/
def Metrics.recordPublish (metrics : Metrics) : PublishOutcome → Metrics
  | .ok => { metrics with mqttPublishOkTotal := metrics.mqttPublishOkTotal + 1 }
  | .failed => { metrics with mqttPublishFailedTotal := metrics.mqttPublishFailedTotal + 1 }
  | .timeout => { metrics with mqttPublishTimeoutTotal := metrics.mqttPublishTimeoutTotal + 1 }
  | .queueFull => { metrics with mqttQueueFullTotal := metrics.mqttQueueFullTotal + 1 }

namespace ConnectionLoss

/-- The point the worker has reached. -/
inductive Worker
  /-- At the test of `running_` in the head of `worker_loop`. -/
  | head
  /-- About to test `connected_`. -/
  | checking
  /-- In `MQTTClient_connect`. -/
  | connecting
  /-- `MQTTClient_connect` returned success; `connected_` is still to be set. -/
  | established
  /-- In `MQTTClient_subscribe` for the first of these topics. -/
  | subscribing (topics : List Bytes)
  /-- Waiting before the next attempt. -/
  | retrying
  /-- Waiting for a job. -/
  | waiting
  /-- In `MQTTClient_publishMessage`. -/
  | publishing (job : PublishCall)
  /-- In `MQTTClient_waitForCompletion`. -/
  | completing (job : PublishCall)
  /-- The loop is left. -/
  | leaving
  /-- In `MQTTClient_disconnect`. -/
  | disconnecting
  | exited
  deriving DecidableEq

/-- The session that the last successful `MQTTClient_connect` established. -/
inductive Session
  | none
  | live
  /-- `on_connection_lost` was called. -/
  | lost
  deriving DecidableEq

structure State where
  running : Bool
  queue : List PublishCall
  connected : Bool
  session : Session
  /-- The topics that the broker accepted in this session. -/
  subscribed : List Bytes
  backoffSeconds : Nat
  worker : Worker
  /-- The jobs that were done, with their outcomes. -/
  finished : List (PublishCall × PublishOutcome)
  metrics : Metrics

inductive Action
  /-- The worker's next step; if it ends a call of the client library, whether
  that call succeeded. -/
  | work (success : Bool)
  /-- `on_connection_lost` is called. -/
  | lose
  /-- A publish is queued. -/
  | enqueue (job : PublishCall)
  /-- Another connection takes a job. -/
  | take
  /-- `running_` is cleared. -/
  | stop
  deriving DecidableEq

/-- The topics that a connection subscribes to. -/
def topics (cfg : Config) (isPrimary : Bool) : List Bytes :=
  if isPrimary then
    (if cfg.subscribeEnabled then cfg.subscribeTopics else []) ++
      (if cfg.webhookEnabled then cfg.webhookTopics else [])
  else []

def maxBackoffSeconds : Nat := 30

/-- The end of `run_job`: anything but success makes the connection reconnect. -/
def State.finish (s : State) (job : PublishCall) (outcome : PublishOutcome) : State :=
  { s with
    connected := if outcome = .ok then s.connected else false
    worker := .head
    finished := s.finished ++ [(job, outcome)]
    metrics := s.metrics.recordPublish outcome }

def workerStep (cfg : Config) (isPrimary success : Bool) (s : State) : Option State :=
  match s.worker with
  | .head => some { s with worker := if s.running then .checking else .leaving }
  | .checking => some { s with worker := if s.connected then .waiting else .connecting }
  | .connecting =>
      if success then some { s with session := .live, subscribed := [], worker := .established }
      else
        some { s with
          metrics.mqttReconnectsTotal := s.metrics.mqttReconnectsTotal + 1
          worker := .retrying }
  | .established =>
      some { s with connected := true, worker := .subscribing (topics cfg isPrimary) }
  | .subscribing [] => some { s with backoffSeconds := 1, worker := .head }
  | .subscribing (topic :: rest) =>
      some { s with
        subscribed := if success then s.subscribed ++ [topic] else s.subscribed
        worker := .subscribing rest }
  | .retrying =>
      some { s with
        backoffSeconds := min (s.backoffSeconds * 2) maxBackoffSeconds
        worker := .head }
  | .waiting =>
      if !s.running then some { s with worker := .leaving }
      else
        -- the wait is bounded, so the queue may still be empty
        match s.queue with
        | [] => some { s with worker := .head }
        | job :: rest => some { s with queue := rest, worker := .publishing job }
  | .publishing job =>
      if !success then some (s.finish job .failed)
      else if job.qos = 0 then some (s.finish job .ok)
      else some { s with worker := .completing job }
  | .completing job => some (s.finish job (if success then .ok else .timeout))
  | .leaving => some { s with worker := if s.connected then .disconnecting else .exited }
  | .disconnecting => some { s with connected := false, worker := .exited }
  | .exited => none

def step (cfg : Config) (isPrimary : Bool) (s : State) : Action → Option State
  | .work success => workerStep cfg isPrimary success s
  | .lose =>
      match s.session with
      | .none => none
      | _ => some { s with session := .lost, connected := false }
  | .enqueue job =>
      if cfg.mqttQueueSize ≤ s.queue.length then
        some { s with metrics := s.metrics.recordPublish .queueFull }
      else some { s with queue := s.queue ++ [job] }
  | .take =>
      match s.queue with
      | [] => none
      | _ :: rest => some { s with queue := rest }
  | .stop => some { s with running := false }

/-- The worker has just been started. -/
def start : State where
  running := true
  queue := []
  connected := false
  session := .none
  subscribed := []
  backoffSeconds := 1
  worker := .head
  finished := []
  metrics := {}

variable {cfg : Config} {isPrimary success : Bool} {s t : State}

/-- `run_job` never marks a connection as connected. -/
theorem connected_finish {job : PublishCall} {outcome : PublishOutcome}
    (h : (s.finish job outcome).connected = true) : s.connected = true := by
  unfold State.finish at h
  simp only at h
  split_ifs at h
  exact h

/-- What the worker does to the session and to `connected_` in one step: a
connect establishes a session, the step after it sets `connected_`, and no other
step changes the session or sets `connected_`. -/
inductive SessionStep (s t : State) : Prop
  | establish (connecting : s.worker = .connecting) (session : t.session = .live)
  | mark (established : s.worker = .established) (session : t.session = s.session)
      (after : t.worker ≠ .established)
  | keep (session : t.session = s.session)
      (connected : t.connected = true → s.connected = true)
      (after : t.worker ≠ .established)

/-- To answer a job leaves the session alone. -/
theorem sessionStep_finish (s : State) (job : PublishCall) (outcome : PublishOutcome) :
    SessionStep s (s.finish job outcome) :=
  .keep rfl connected_finish Worker.noConfusion

/-- **The worker's part** in every interleaving. -/
theorem workerStep_session (h : workerStep cfg isPrimary success s = some t) :
    SessionStep s t := by
  unfold workerStep at h
  cases hworker : s.worker with
  | head =>
      simp only [hworker, Option.some.injEq] at h
      subst h
      exact .keep rfl id (by dsimp only; split_ifs <;> exact Worker.noConfusion)
  | checking =>
      simp only [hworker, Option.some.injEq] at h
      subst h
      exact .keep rfl id (by dsimp only; split_ifs <;> exact Worker.noConfusion)
  | connecting =>
      simp only [hworker] at h
      split_ifs at h
      · exact .establish hworker (Option.some.inj h ▸ rfl)
      · rw [Option.some.injEq] at h
        subst h
        exact .keep rfl id Worker.noConfusion
  | established =>
      simp only [hworker, Option.some.injEq] at h
      subst h
      exact .mark hworker rfl Worker.noConfusion
  | subscribing topics =>
      cases topics with
      | nil =>
          simp only [hworker, Option.some.injEq] at h
          subst h
          exact .keep rfl id Worker.noConfusion
      | cons topic rest =>
          simp only [hworker, Option.some.injEq] at h
          subst h
          exact .keep rfl id Worker.noConfusion
  | retrying =>
      simp only [hworker, Option.some.injEq] at h
      subst h
      exact .keep rfl id Worker.noConfusion
  | waiting =>
      simp only [hworker] at h
      split_ifs at h
      · rw [Option.some.injEq] at h
        subst h
        exact .keep rfl id Worker.noConfusion
      · split at h
        · rw [Option.some.injEq] at h
          subst h
          exact .keep rfl id Worker.noConfusion
        · rw [Option.some.injEq] at h
          subst h
          exact .keep rfl id Worker.noConfusion
  | publishing job =>
      simp only [hworker] at h
      split_ifs at h
      · exact Option.some.inj h ▸ sessionStep_finish s job .failed
      · exact Option.some.inj h ▸ sessionStep_finish s job .ok
      · rw [Option.some.injEq] at h
        subst h
        exact .keep rfl id Worker.noConfusion
  | completing job =>
      simp only [hworker, Option.some.injEq] at h
      exact h ▸ sessionStep_finish s job _
  | leaving =>
      simp only [hworker, Option.some.injEq] at h
      subst h
      exact .keep rfl id (by dsimp only; split_ifs <;> exact Worker.noConfusion)
  | disconnecting =>
      simp only [hworker, Option.some.injEq] at h
      subst h
      exact .keep rfl (fun hc => by cases hc) Worker.noConfusion
  | exited => simp only [hworker, reduceCtorEq] at h

/-- The condition on a step: no callback between the return of
`MQTTClient_connect` and the setting of `connected_`. -/
def LosesOutsideWindow (s : State) : Action → Prop
  | .lose => s.worker ≠ .established
  | _ => True

instance (s : State) : ∀ a, Decidable (LosesOutsideWindow s a)
  | .lose => inferInstanceAs (Decidable (s.worker ≠ .established))
  | .work _ => .isTrue trivial
  | .enqueue _ => .isTrue trivial
  | .take => .isTrue trivial
  | .stop => .isTrue trivial

/-- A lost session is marked as such and is not about to be marked as live. -/
structure Inv (s : State) : Prop where
  marked : s.session = .lost → s.connected = false
  settled : s.session = .lost → s.worker ≠ .established

/-- The worker keeps the invariant, one point of its loop after the other. -/
theorem inv_workerStep (hs : Inv s) (h : workerStep cfg isPrimary success s = some t) :
    Inv t := by
  cases workerStep_session h with
  | establish _ session =>
      have hlive : t.session ≠ .lost := by
        rw [session]
        exact Session.noConfusion
      exact ⟨fun hlost => absurd hlost hlive, fun hlost => absurd hlost hlive⟩
  | mark established session after =>
      refine ⟨fun hlost => ?_, fun _ => after⟩
      exact absurd established (hs.settled (session ▸ hlost))
  | keep session connected after =>
      refine ⟨fun hlost => ?_, fun _ => after⟩
      have hmarked := hs.marked (session ▸ hlost)
      cases hconnected : t.connected with
      | false => rfl
      | true =>
          rw [connected hconnected] at hmarked
          cases hmarked

/-- **One step** keeps the invariant while no loss falls into the window. -/
theorem inv_step (s : State) (a : Action) (t : State) (hs : Inv s)
    (hok : LosesOutsideWindow s a) (h : step cfg isPrimary s a = some t) : Inv t := by
  cases a with
  | work success => exact inv_workerStep hs h
  | lose =>
      simp only [step] at h
      split at h
      · cases h
      · rw [Option.some.injEq] at h
        subst h
        exact ⟨fun _ => rfl, fun _ => hok⟩
  | enqueue job =>
      simp only [step] at h
      split_ifs at h
      · exact Option.some.inj h ▸ ⟨hs.marked, hs.settled⟩
      · exact Option.some.inj h ▸ ⟨hs.marked, hs.settled⟩
  | take =>
      simp only [step] at h
      split at h
      · cases h
      · exact Option.some.inj h ▸ ⟨hs.marked, hs.settled⟩
  | stop => exact Option.some.inj h ▸ ⟨hs.marked, hs.settled⟩

/-- At the loop's head, a connection that is not marked as connected goes on to
connect. -/
theorem reconnects (hhead : s.worker = .head) (hrunning : s.running = true)
    (hconnected : s.connected = false) (first second : Bool) :
    runFrom (step cfg isPrimary) s [.work first, .work second] =
      some { s with worker := .connecting } := by
  simp only [runFrom, step, workerStep, hhead, hrunning, hconnected, if_true, Option.bind_some,
    Bool.false_eq_true, if_false]

/-- The subscriptions of a connect whose calls succeed. -/
theorem runFrom_subscribing (cfg : Config) (isPrimary : Bool) (s : State) (remaining : List Bytes) :
    runFrom (step cfg isPrimary) { s with worker := .subscribing remaining }
        (remaining.map fun _ => .work true) =
      some { s with subscribed := s.subscribed ++ remaining, worker := .subscribing [] } := by
  induction remaining generalizing s with
  | nil => simp only [List.map_nil, runFrom_nil, List.append_nil]
  | cons topic rest ih =>
      have hfirst := ih { s with subscribed := s.subscribed ++ [topic] }
      simp only [List.append_assoc, List.cons_append, List.nil_append] at hfirst
      simp only [List.map_cons, runFrom, step, workerStep, if_true, Option.bind_some]
      exact hfirst

/-- **A reconnect subscribes again** to every topic, when its calls succeed. -/
theorem resubscribes (hconnecting : s.worker = .connecting) :
    runFrom (step cfg isPrimary) s
        (.work true :: .work true :: ((topics cfg isPrimary).map fun _ => .work true) ++
          [.work true]) =
      some { s with
        session := .live
        connected := true
        subscribed := topics cfg isPrimary
        backoffSeconds := 1
        worker := .head } := by
  have hsubscribed := runFrom_subscribing cfg isPrimary
    { s with session := .live, connected := true, subscribed := [] } (topics cfg isPrimary)
  simp only [List.nil_append] at hsubscribed
  simp only [List.cons_append, runFrom, step, workerStep, hconnecting, if_true, Option.bind_some]
  rw [runFrom_append]
  exact ⟨_, hsubscribed, rfl⟩

/-- **A lost session is never taken for a live one** in a run in which no
callback falls between the return of `MQTTClient_connect` and the setting of
`connected_`; from the loop's head it is followed by a connect. -/
theorem lost_of_losesOutsideWindow (cfg : Config) (isPrimary : Bool) {schedule : List Action}
    {t : State} (hok : StepsMeet (step cfg isPrimary) LosesOutsideWindow start schedule)
    (hrun : runFrom (step cfg isPrimary) start schedule = some t) (hhead : t.worker = .head) :
    (t.connected = true → t.session ≠ .lost) ∧
      (t.session = .lost → t.running = true → ∀ first second,
        runFrom (step cfg isPrimary) t [.work first, .work second] =
          some { t with worker := .connecting }) := by
  have hinv := invariant_of_guarded_run inv_step
    (show Inv start from ⟨fun _ => rfl, fun _ => Worker.noConfusion⟩) hok hrun
  constructor
  · intro hconnected hlost
    rw [hinv.marked hlost] at hconnected
    cases hconnected
  · intro hlost hrunning first second
    exact reconnects hhead hrunning (hinv.marked hlost) first second

/-- The callback finds the worker waiting for a job. -/
theorem lost_while_waiting : ∃ t,
    runFrom (step { subscribeEnabled := true } true) start
      [.work true, .work true, .work true, .work true, .work true, .work true, .work true,
        .work true, .lose, .work true] = some t ∧
    t.session = .lost ∧
    runFrom (step { subscribeEnabled := true } true) t [.work true, .work true] =
      some { t with worker := .connecting } := by
  obtain ⟨t, hrun, ht⟩ := exists_of_runFrom
    (step { subscribeEnabled := true } true) start
    [.work true, .work true, .work true, .work true, .work true, .work true,
      .work true, .work true, .lose, .work true]
    (fun t => decide (t.worker = .head ∧ t.session = .lost ∧ t.running = true)) (by decide)
  rw [decide_eq_true_eq] at ht
  obtain ⟨hhead, hlost, hrunning⟩ := ht
  have hreconnects := (lost_of_losesOutsideWindow _ true (by decide) hrun hhead).2
  exact ⟨t, hrun, hlost, hreconnects hlost hrunning true true⟩

/-- At the loop's head, about to test `connected_`, waiting for a job, or still
subscribing. -/
def Worker.listens : Worker → Bool
  | .head => true
  | .checking => true
  | .waiting => true
  | .subscribing _ => true
  | _ => false

/-- The session is lost, the worker takes it for live, and there is nothing to
publish. -/
structure Deaf (s : State) : Prop where
  running : s.running = true
  lost : s.session = .lost
  connected : s.connected = true
  quiet : s.queue = []
  listens : s.worker.listens = true

/-- The steps of a connection to which nothing is given to publish. -/
def SubscribeOnly : Action → Prop
  | .work _ => True
  | .take => True
  | _ => False

/-- The worker stays without its subscriptions. -/
theorem deaf_workerStep (hs : Deaf s) (h : workerStep cfg isPrimary success s = some t) :
    Deaf t := by
  obtain ⟨hrunning, hlost, hconnected, hquiet, hlistens⟩ := hs
  unfold workerStep at h
  cases hworker : s.worker with
  | head =>
      simp only [hworker, Option.some.injEq] at h
      subst h
      exact ⟨hrunning, hlost, hconnected, hquiet, by simp only [hrunning]; rfl⟩
  | checking =>
      simp only [hworker, Option.some.injEq] at h
      subst h
      exact ⟨hrunning, hlost, hconnected, hquiet, by simp only [hconnected]; rfl⟩
  | waiting =>
      have ht : { s with worker := .head } = t := by
        simpa only [hworker, hrunning, hquiet, Bool.not_true, Bool.false_eq_true, if_false,
          Option.some.injEq] using h
      subst ht
      exact ⟨hrunning, hlost, hconnected, hquiet, rfl⟩
  | subscribing topics =>
      cases topics with
      | nil =>
          simp only [hworker, Option.some.injEq] at h
          exact h ▸ ⟨hrunning, hlost, hconnected, hquiet, rfl⟩
      | cons topic rest =>
          simp only [hworker, Option.some.injEq] at h
          exact h ▸ ⟨hrunning, hlost, hconnected, hquiet, rfl⟩
  | connecting => simp [hworker, Worker.listens] at hlistens
  | established => simp [hworker, Worker.listens] at hlistens
  | retrying => simp [hworker, Worker.listens] at hlistens
  | publishing job => simp [hworker, Worker.listens] at hlistens
  | completing job => simp [hworker, Worker.listens] at hlistens
  | leaving => simp [hworker, Worker.listens] at hlistens
  | disconnecting => simp [hworker, Worker.listens] at hlistens
  | exited => simp [hworker, Worker.listens] at hlistens

/-- **One step** leaves the connection deaf while nothing is given to publish. -/
theorem deaf_step (s : State) (a : Action) (t : State) (hs : Deaf s) (hok : SubscribeOnly a)
    (h : step cfg isPrimary s a = some t) : Deaf t := by
  cases a with
  | work success => exact deaf_workerStep hs h
  | take =>
      simp only [step, hs.quiet, reduceCtorEq] at h
  | lose => cases hok
  | enqueue job => cases hok
  | stop => cases hok

/-- **Without a publish the loss is never noticed.** -/
theorem deaf_of_subscribeOnly {schedule : List Action} (hs : Deaf s)
    (hok : StepsMeet (step cfg isPrimary) (fun _ => SubscribeOnly) s schedule)
    (hrun : runFrom (step cfg isPrimary) s schedule = some t) : Deaf t :=
  invariant_of_guarded_run deaf_step hs hok hrun

/-- **A session that is lost in the window counts as live**: the callback runs
after `MQTTClient_connect` has returned, and the worker then sets `connected_`. -/
theorem loss_overwritten :
    ¬ ∀ (schedule : List Action) (t : State),
      runFrom (step { subscribeEnabled := true } true) start schedule = some t →
      t.worker = .head → t.connected = true → t.session ≠ .lost := by
  intro hclaim
  obtain ⟨t, hrun, ht⟩ := exists_of_runFrom
    (step { subscribeEnabled := true } true) start
    [.work true, .work true, .work true, .lose, .work true, .work true, .work true]
    (fun t => decide (t.worker = .head ∧ t.connected = true ∧ t.session = .lost))
    (by decide)
  rw [decide_eq_true_eq] at ht
  obtain ⟨hhead, hconnected, hlost⟩ := ht
  exact hclaim _ t hrun hhead hconnected hlost

end ConnectionLoss

end Nshmqtt
