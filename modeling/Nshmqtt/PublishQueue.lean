import Nshmqtt.ConnectionLoss
import Nshmqtt.Tally
import Mathlib.Data.Fintype.EquivFin

/-!
# The publish queue

`MqttClient::publish`, the workers of the connection pool with `run_job`, and
`MqttClient::stop` in `mqtt.cpp`.  Callers push jobs on a bounded queue and wait
with a deadline; any number of connections pop them and hand them to Paho, whose
answers are arbitrary.  A step is a critical section or an access to an atomic
variable.

A job moves along one path: queue, connection, Paho, counter, outcome.  Its place
on it is counted, and the counts add up.
-/

namespace Nshmqtt

open ByteStrings TransitionRuns Tally

namespace PublishQueue

/-- The arguments of `MQTTClient_publishMessage`. -/
structure PubMessage where
  topic : Bytes
  payload : Bytes
  payloadlen : Int
  qos : Int
  retained : Int
  deriving DecidableEq

/-- What `run_job` passes on: the topic as a C string, the length as an `int`. -/
def pubMessage (job : PublishCall) : PubMessage where
  topic := cString job.topic
  payload := job.payload
  payloadlen := Int.bmod job.payload.length (2 ^ 32)
  qos := job.qos
  retained := if job.retain then 1 else 0

/-- `done` and `outcome` of a job, both guarded by its `done_mutex`. -/
structure Job where
  done : Bool := false
  outcome : PublishOutcome := .failed

/-- The point a call of `publish` has reached. -/
inductive Caller
  | idle
  /-- In `wait_for`. -/
  | waiting
  | returned (outcome : PublishOutcome)
  deriving DecidableEq

/-- The point a connection's worker has reached. -/
inductive Connection (ι : Type*)
  /-- At the test of `running_` in the head of `worker_loop`. -/
  | head
  /-- Connecting, backing off, or waiting for a job. -/
  | polling
  /-- With the queue's mutex, `running_` was set. -/
  | popping
  /-- In `run_job`, about to call Paho. -/
  | holding (i : ι)
  /-- In `MQTTClient_waitForCompletion`. -/
  | awaiting (i : ι)
  /-- About to count the outcome. -/
  | counting (i : ι) (outcome : PublishOutcome)
  /-- About to write the outcome. -/
  | reporting (i : ι) (outcome : PublishOutcome)
  | exited

/-- The point `stop` has reached. -/
inductive Stopper (ι : Type*)
  | idle
  /-- `running_` is cleared; in `join`. -/
  | flagged
  /-- With the queue's mutex, about to fail the jobs in `rest`. -/
  | draining (rest : List ι)
  | returned

/-- The calls of `publish` are told apart by `ι`, the connections by `κ`. -/
structure State (κ ι : Type*) where
  running : Bool
  queue : List ι
  job : ι → Job
  caller : ι → Caller
  connection : κ → Connection ι
  stopper : Stopper ι
  metrics : Metrics
  /-- The jobs that were pushed, in order. -/
  accepted : List ι
  /-- The jobs that were popped, in order. -/
  taken : List ι
  /-- The calls of `MQTTClient_publishMessage`, with their success. -/
  handed : List (ι × PubMessage × Bool)
  /-- The outcomes that were counted. -/
  counted : List (ι × PublishOutcome)
  /-- The jobs whose outcome a connection wrote. -/
  reported : List ι
  /-- The jobs whose outcome `stop` wrote. -/
  stopped : List ι

inductive Action (κ ι : Type*)
  /-- `publish` is called and looks at the queue. -/
  | publish (i : ι)
  /-- `wait_for` finds the job done. -/
  | wake (i : ι)
  /-- `wait_for` gives up. -/
  | expire (i : ι)
  /-- The next step of a worker; what it calls succeeds or not. -/
  | work (c : κ) (success : Bool)
  /-- The next step of `stop`. -/
  | stop

variable {κ ι : Type*}

def Connection.isExited : Connection ι → Bool
  | .exited => true
  | _ => false

/-- Has `stop` the queue's mutex? -/
def Stopper.isDraining : Stopper ι → Bool
  | .draining _ => true
  | _ => false

variable [DecidableEq κ] [DecidableEq ι]

def State.moveCaller (s : State κ ι) (i : ι) (next : Caller) : State κ ι :=
  { s with caller := Function.update s.caller i next }

def State.moveConnection (s : State κ ι) (c : κ) (next : Connection ι) : State κ ι :=
  { s with connection := Function.update s.connection c next }

def State.writeOutcome (s : State κ ι) (i : ι) (outcome : PublishOutcome) : State κ ι :=
  { s with job := Function.update s.job i ⟨true, outcome⟩ }

def publishStep (cfg : Config) (s : State κ ι) (i : ι) : Option (State κ ι) :=
  match s.caller i with
  | .idle =>
      if s.stopper.isDraining then none
      else if cfg.mqttQueueSize ≤ s.queue.length then
        some ({ s with metrics := s.metrics.recordPublish .queueFull }.moveCaller i
          (.returned .queueFull))
      else
        some ({ s with queue := s.queue ++ [i], accepted := s.accepted ++ [i] }.moveCaller i
          .waiting)
  | _ => none

def wakeStep (s : State κ ι) (i : ι) : Option (State κ ι) :=
  match s.caller i with
  | .waiting =>
      if (s.job i).done then some (s.moveCaller i (.returned (s.job i).outcome)) else none
  | _ => none

def expireStep (s : State κ ι) (i : ι) : Option (State κ ι) :=
  match s.caller i with
  | .waiting => if (s.job i).done then none else some (s.moveCaller i (.returned .timeout))
  | _ => none

def workerStep (request : ι → PublishCall) (s : State κ ι) (c : κ) (success : Bool) :
    Option (State κ ι) :=
  match s.connection c with
  | .head => some (s.moveConnection c (if s.running then .polling else .exited))
  | .polling =>
      -- without success: the connection is down, or is tried again later
      if !success then some (s.moveConnection c .head)
      else some (s.moveConnection c (if s.running then .popping else .exited))
  | .popping =>
      match s.queue with
      | [] => some (s.moveConnection c .head)
      | i :: rest =>
          some ({ s with queue := rest, taken := s.taken ++ [i] }.moveConnection c (.holding i))
  | .holding i =>
      some ({ s with
        handed := s.handed ++ [(i, pubMessage (request i), success)] }.moveConnection c
          (if !success then .counting i .failed
          else if (request i).qos = 0 then .counting i .ok
          else .awaiting i))
  | .awaiting i =>
      some (s.moveConnection c (.counting i (if success then .ok else .timeout)))
  | .counting i outcome =>
      some ({ s with
        metrics := s.metrics.recordPublish outcome
        counted := s.counted ++ [(i, outcome)] }.moveConnection c (.reporting i outcome))
  | .reporting i outcome =>
      some (({ s with reported := s.reported ++ [i] }.writeOutcome i outcome).moveConnection c
        .head)
  | .exited => none

variable [Fintype κ]

def stopStep (s : State κ ι) : Option (State κ ι) :=
  match s.stopper with
  | .idle => some { s with running := false, stopper := .flagged }
  | .flagged =>
      if ∀ c, (s.connection c).isExited = true then
        some { s with stopper := .draining s.queue }
      else none
  | .draining [] => some { s with queue := [], stopper := .returned }
  | .draining (i :: rest) =>
      some ({ s with stopped := s.stopped ++ [i], stopper := .draining rest }.writeOutcome i
        .failed)
  | .returned => none

def step (cfg : Config) (request : ι → PublishCall) (s : State κ ι) :
    Action κ ι → Option (State κ ι)
  | .publish i => publishStep cfg s i
  | .wake i => wakeStep s i
  | .expire i => expireStep s i
  | .work c success => workerStep request s c success
  | .stop => stopStep s

/-- The client has just been started. -/
def start (κ ι : Type*) : State κ ι where
  running := true
  queue := []
  job _ := {}
  caller _ := .idle
  connection _ := .head
  stopper := .idle
  metrics := {}
  accepted := []
  taken := []
  handed := []
  counted := []
  reported := []
  stopped := []

/-- Without a job. -/
def Connection.isFree : Connection ι → Bool
  | .head => true
  | .polling => true
  | .popping => true
  | _ => false

/-- The phases that `run_job` can be in after Paho's first answer. -/
inductive Answered (qos : Int) (i : ι) : Bool → Connection ι → Prop
  | refused : Answered qos i false (.counting i .failed)
  | sent (zero : qos = 0) : Answered qos i true (.counting i .ok)
  | pending (acknowledged : qos ≠ 0) : Answered qos i true (.awaiting i)

/-- The transitions, with the tests that allow them. -/
inductive Transition (cfg : Config) (request : ι → PublishCall) (s : State κ ι) :
    State κ ι → Prop
  | refuse (i : ι) (phase : s.caller i = .idle) (full : cfg.mqttQueueSize ≤ s.queue.length) :
      Transition cfg request s ({ s with
        metrics := s.metrics.recordPublish .queueFull }.moveCaller i (.returned .queueFull))
  | accept (i : ι) (phase : s.caller i = .idle) (unlocked : s.stopper.isDraining = false)
      (room : (s.queue.length : Int) < cfg.mqttQueueSize) :
      Transition cfg request s ({ s with
        queue := s.queue ++ [i]
        accepted := s.accepted ++ [i] }.moveCaller i .waiting)
  | wake (i : ι) (phase : s.caller i = .waiting) (done : (s.job i).done = true) :
      Transition cfg request s (s.moveCaller i (.returned (s.job i).outcome))
  | expire (i : ι) (phase : s.caller i = .waiting) :
      Transition cfg request s (s.moveCaller i (.returned .timeout))
  | turn (c : κ) (next : Connection ι) (phase : (s.connection c).isFree = true)
      (free : next.isFree = true ∨ next = .exited) :
      Transition cfg request s (s.moveConnection c next)
  | pop (c : κ) (i : ι) (rest : List ι) (phase : s.connection c = .popping)
      (front : s.queue = i :: rest) :
      Transition cfg request s ({ s with
        queue := rest
        taken := s.taken ++ [i] }.moveConnection c (.holding i))
  | hand (c : κ) (i : ι) (success : Bool) (next : Connection ι)
      (phase : s.connection c = .holding i)
      (answered : Answered (request i).qos i success next) :
      Transition cfg request s ({ s with
        handed := s.handed ++ [(i, pubMessage (request i), success)] }.moveConnection c next)
  | complete (c : κ) (i : ι) (outcome : PublishOutcome) (phase : s.connection c = .awaiting i)
      (outcomes : outcome = .ok ∨ outcome = .timeout) :
      Transition cfg request s (s.moveConnection c (.counting i outcome))
  | count (c : κ) (i : ι) (outcome : PublishOutcome)
      (phase : s.connection c = .counting i outcome) :
      Transition cfg request s ({ s with
        metrics := s.metrics.recordPublish outcome
        counted := s.counted ++ [(i, outcome)] }.moveConnection c (.reporting i outcome))
  | report (c : κ) (i : ι) (outcome : PublishOutcome)
      (phase : s.connection c = .reporting i outcome) :
      Transition cfg request s (({ s with
        reported := s.reported ++ [i] }.writeOutcome i outcome).moveConnection c .head)
  | flag (phase : s.stopper = .idle) :
      Transition cfg request s { s with running := false, stopper := .flagged }
  | join (phase : s.stopper = .flagged) (all : ∀ c, s.connection c = .exited) :
      Transition cfg request s { s with stopper := .draining s.queue }
  | fail (i : ι) (rest : List ι) (phase : s.stopper = .draining (i :: rest)) :
      Transition cfg request s ({ s with
        stopped := s.stopped ++ [i]
        stopper := .draining rest }.writeOutcome i .failed)
  | clear (phase : s.stopper = .draining []) :
      Transition cfg request s { s with queue := [], stopper := .returned }

variable {cfg : Config} {request : ι → PublishCall} {s t : State κ ι}

omit [DecidableEq κ] [DecidableEq ι] [Fintype κ] in
theorem isExited_iff {phase : Connection ι} : phase.isExited = true ↔ phase = .exited := by
  cases phase <;> simp [Connection.isExited]

omit [Fintype κ] in
/-- The steps of a caller of `publish`. -/
theorem transition_of_publishStep {i : ι} (h : publishStep cfg s i = some t) :
    Transition cfg request s t := by
  unfold publishStep at h
  split at h
  · rename_i hphase
    split_ifs at h with hdraining hfull
    · exact Option.some.inj h ▸ .refuse i hphase hfull
    · exact Option.some.inj h ▸
        .accept i hphase (by simpa using hdraining) (Int.not_le.mp hfull)
  · cases h

omit [Fintype κ] in
/-- The steps of a connection's worker. -/
theorem transition_of_workerStep {c : κ} {success : Bool}
    (h : workerStep request s c success = some t) : Transition cfg request s t := by
  unfold workerStep at h
  split at h
  · rename_i hphase
    refine Option.some.inj h ▸ .turn c _ (by rw [hphase]; rfl) ?_
    cases s.running
    · exact .inr rfl
    · exact .inl rfl
  · rename_i hphase
    have hfree : (s.connection c).isFree = true := by
      rw [hphase]
      rfl
    split_ifs at h with hdown hrunning
    · exact Option.some.inj h ▸ .turn c _ hfree (.inl rfl)
    · exact Option.some.inj h ▸ .turn c _ hfree (.inl rfl)
    · exact Option.some.inj h ▸ .turn c _ hfree (.inr rfl)
  · rename_i hphase
    split at h
    · exact Option.some.inj h ▸ .turn c _ (by rw [hphase]; rfl) (.inl rfl)
    · rename_i i rest hqueue
      exact Option.some.inj h ▸ .pop c i rest hphase hqueue
  · rename_i i hphase
    refine Option.some.inj h ▸ .hand c i success _ hphase ?_
    cases success with
    | false => exact .refused
    | true =>
        by_cases hqos : (request i).qos = 0
        · simpa [hqos] using Answered.sent hqos
        · simpa [hqos] using Answered.pending hqos
  · rename_i i hphase
    refine Option.some.inj h ▸ .complete c i _ hphase ?_
    cases success <;> simp
  · rename_i i outcome hphase
    exact Option.some.inj h ▸ .count c i outcome hphase
  · rename_i i outcome hphase
    exact Option.some.inj h ▸ .report c i outcome hphase
  · cases h

/-- The steps of `stop`. -/
theorem transition_of_stopStep (h : stopStep s = some t) : Transition cfg request s t := by
  unfold stopStep at h
  split at h
  · rename_i hphase
    exact Option.some.inj h ▸ .flag hphase
  · rename_i hphase
    split_ifs at h with hall
    exact Option.some.inj h ▸ .join hphase fun c => isExited_iff.mp (hall c)
  · rename_i hphase
    exact Option.some.inj h ▸ .clear hphase
  · rename_i i rest hphase
    exact Option.some.inj h ▸ .fail i rest hphase
  · cases h

/-- **Every step** is one of the transitions. -/
theorem transition_of_step {a : Action κ ι} (h : step cfg request s a = some t) :
    Transition cfg request s t := by
  cases a with
  | publish i => exact transition_of_publishStep h
  | wake i =>
      simp only [step, wakeStep] at h
      split at h
      · rename_i hphase
        split_ifs at h with hdone
        exact Option.some.inj h ▸ .wake i hphase hdone
      · cases h
  | expire i =>
      simp only [step, expireStep] at h
      split at h
      · rename_i hphase
        split_ifs at h with hdone
        exact Option.some.inj h ▸ .expire i hphase
      · cases h
  | work c success => exact transition_of_workerStep h
  | stop => exact transition_of_stopStep h

/-- The jobs that still wait on the queue; while `stop` drains it, those it has not
failed yet. -/
def Stopper.pending (queue : List ι) : Stopper ι → List ι
  | .draining rest => rest
  | _ => queue

/-- Have the workers been joined? -/
def Stopper.hasJoined : Stopper ι → Bool
  | .draining _ => true
  | .returned => true
  | _ => false

/-- Where the accepted jobs are, and who drains the queue when. -/
structure Queued (cfg : Config) (s : State κ ι) : Prop where
  bounded : s.queue.length ≤ cfg.mqttQueueSize.toNat
  order : s.accepted = s.taken ++ s.stopped ++ s.stopper.pending s.queue
  nodup : s.accepted.Nodup
  called : ∀ i ∈ s.accepted, s.caller i ≠ .idle
  early : s.stopper.hasJoined = false → s.stopped = []
  late : s.stopper.hasJoined = true → ∀ c, s.connection c = .exited

omit [DecidableEq κ] [DecidableEq ι] [Fintype κ] in
/-- Until the queue is drained it is all that is pending. -/
theorem pending_of_not_draining {stopper : Stopper ι} {queue : List ι}
    (h : stopper.isDraining = false) : stopper.pending queue = queue := by
  cases stopper <;> first | rfl | cases h

omit [DecidableEq κ] [DecidableEq ι] [Fintype κ] in
/-- The queue is drained after the workers were joined. -/
theorem not_draining_of_not_joined {stopper : Stopper ι} (h : stopper.hasJoined = false) :
    stopper.isDraining = false := by
  cases stopper <;> first | rfl | cases h

omit [DecidableEq κ] [DecidableEq ι] [Fintype κ] in
/-- A worker that is still there has not been joined. -/
theorem Queued.not_joined (hs : Queued cfg s) {c : κ} (h : s.connection c ≠ .exited) :
    s.stopper.hasJoined = false := by
  cases hjoined : s.stopper.hasJoined with
  | false => rfl
  | true => exact (h (hs.late hjoined c)).elim

omit [DecidableEq κ] [Fintype κ] in
/-- A caller that moves on has called. -/
theorem Queued.called_moveCaller (hs : Queued cfg s) {i : ι} {next : Caller}
    (hnext : next ≠ .idle) : ∀ j ∈ s.accepted, (s.moveCaller i next).caller j ≠ .idle := by
  intro j hj
  have hcalled := hs.called j hj
  simp only [State.moveCaller, Function.update_apply]
  split_ifs
  · exact hnext
  · exact hcalled

omit [DecidableEq ι] [Fintype κ] in
/-- A connection moves only while the workers are not joined. -/
theorem Queued.late_moveConnection (hs : Queued cfg s) {c : κ} (next : Connection ι)
    (h : s.connection c ≠ .exited) :
    s.stopper.hasJoined = true → ∀ d, (s.moveConnection c next).connection d = .exited := by
  intro hjoined
  rw [hs.not_joined h] at hjoined
  cases hjoined

omit [Fintype κ] in
/-- **Every job** that was accepted is queued, taken or stopped, and in one place only. -/
theorem queued_transition (hs : Queued cfg s) (h : Transition cfg request s t) :
    Queued cfg t := by
  obtain ⟨hbounded, horder, hnodup, hcalled, hearly, hlate⟩ := id hs
  cases h with
  | refuse i phase full =>
      exact ⟨hbounded, horder, hnodup, hs.called_moveCaller (by simp), hearly, hlate⟩
  | accept i phase unlocked room =>
      have hfresh : i ∉ s.accepted := fun hi => hcalled i hi phase
      rw [pending_of_not_draining unlocked] at horder
      refine ⟨?_, ?_, ?_, fun j hj => ?_, hearly, hlate⟩
      · simp only [State.moveCaller, List.length_append, List.length_singleton]
        omega
      · simp [State.moveCaller, pending_of_not_draining unlocked, horder]
      · simpa [State.moveCaller, List.nodup_append, hnodup] using
          fun j hj (hji : j = i) => hfresh (hji ▸ hj)
      · simp only [State.moveCaller, List.mem_append, List.mem_singleton] at hj
        by_cases hji : j = i
        · simp [State.moveCaller, hji]
        · simpa [State.moveCaller, hji] using hcalled j (hj.resolve_right hji)
  | wake i phase done =>
      exact ⟨hbounded, horder, hnodup, hs.called_moveCaller (by simp), hearly, hlate⟩
  | expire i phase =>
      exact ⟨hbounded, horder, hnodup, hs.called_moveCaller (by simp), hearly, hlate⟩
  | turn c next phase free =>
      exact ⟨hbounded, horder, hnodup, hcalled, hearly,
        hs.late_moveConnection next fun hexited => by simp [hexited, Connection.isFree] at phase⟩
  | pop c i rest phase front =>
      have hhere : s.connection c ≠ .exited := by simp [phase]
      have hjoined := hs.not_joined hhere
      have hdraining := not_draining_of_not_joined hjoined
      refine ⟨?_, ?_, hnodup, hcalled, hearly, hs.late_moveConnection _ hhere⟩
      · rw [front, List.length_cons] at hbounded
        exact Nat.le_of_succ_le hbounded
      · rw [hearly hjoined, pending_of_not_draining hdraining, front] at horder
        simp [State.moveConnection, horder, hearly hjoined, pending_of_not_draining hdraining]
  | hand c i success next phase answered =>
      exact ⟨hbounded, horder, hnodup, hcalled, hearly,
        hs.late_moveConnection _ (by simp [phase])⟩
  | complete c i outcome phase outcomes =>
      exact ⟨hbounded, horder, hnodup, hcalled, hearly,
        hs.late_moveConnection _ (by simp [phase])⟩
  | count c i outcome phase =>
      exact ⟨hbounded, horder, hnodup, hcalled, hearly,
        hs.late_moveConnection _ (by simp [phase])⟩
  | report c i outcome phase =>
      exact ⟨hbounded, horder, hnodup, hcalled, hearly,
        hs.late_moveConnection _ (by simp [phase])⟩
  | flag phase =>
      rw [phase] at horder hearly
      exact ⟨hbounded, horder, hnodup, hcalled, hearly, nofun⟩
  | join phase all =>
      rw [phase] at horder hearly
      exact ⟨hbounded, horder, hnodup, hcalled, nofun, fun _ => all⟩
  | fail i rest phase =>
      rw [phase] at horder hlate
      refine ⟨hbounded, ?_, hnodup, hcalled, nofun, fun _ => hlate rfl⟩
      simpa [State.writeOutcome, Stopper.pending] using horder
  | clear phase =>
      rw [phase] at horder hlate
      exact ⟨Nat.zero_le _, horder, hnodup, hcalled, nofun, fun _ => hlate rfl⟩

/-- One for a connection in `run_job` with job `i`. -/
def Connection.held (i : ι) : Connection ι → Nat
  | .holding j => if j = i then 1 else 0
  | .awaiting j => if j = i then 1 else 0
  | .counting j _ => if j = i then 1 else 0
  | .reporting j _ => if j = i then 1 else 0
  | _ => 0

/-- One for a connection in `run_job` that has handed job `i` to Paho. -/
def Connection.passed (i : ι) : Connection ι → Nat
  | .awaiting j => if j = i then 1 else 0
  | .counting j _ => if j = i then 1 else 0
  | .reporting j _ => if j = i then 1 else 0
  | _ => 0

/-- One for a connection that has taken a job and not yet counted its outcome. -/
def Connection.uncounted : Connection ι → Nat
  | .holding _ => 1
  | .awaiting _ => 1
  | .counting _ _ => 1
  | _ => 0

/-- A taken job is in the hands of one connection, then done. -/
structure Counted (s : State κ ι) : Prop where
  taken : ∀ i, s.taken.count i = tally (Connection.held i) s.connection + s.reported.count i
  handed : ∀ i, (s.handed.map Prod.fst).count i =
    tally (Connection.passed i) s.connection + s.reported.count i
  counted : s.taken.length = tally Connection.uncounted s.connection + s.counted.length

omit [DecidableEq κ] [Fintype κ] in
/-- A free connection has no job. -/
theorem weights_of_isFree {phase : Connection ι} (h : phase.isFree = true ∨ phase = .exited) :
    (∀ i, phase.held i = 0) ∧ (∀ i, phase.passed i = 0) ∧ phase.uncounted = 0 := by
  cases phase <;> simp_all [Connection.isFree, Connection.held, Connection.passed,
    Connection.uncounted]

omit [DecidableEq κ] [Fintype κ] in
/-- A connection that has answered its job still holds it, until it is counted. -/
theorem weights_of_answered {qos : Int} {i : ι} {success : Bool} {next : Connection ι}
    (h : Answered qos i success next) :
    (∀ j, next.held j = if i = j then 1 else 0) ∧
      (∀ j, next.passed j = if i = j then 1 else 0) ∧ next.uncounted = 1 := by
  cases h <;> exact ⟨fun _ => rfl, fun _ => rfl, rfl⟩

/-- The weights move with a connection. -/
theorem counted_transition (hs : Counted s) (h : Transition cfg request s t) : Counted t := by
  obtain ⟨htaken, hhanded, hcounted⟩ := hs
  have hheld := fun i => tally_update (Connection.held i) s.connection
  have hpassed := fun i => tally_update (Connection.passed i) s.connection
  have huncounted := tally_update Connection.uncounted s.connection
  cases h with
  | turn c next phase free =>
      obtain ⟨hheldBefore, hpassedBefore, huncountedBefore⟩ := weights_of_isFree (.inl phase)
      obtain ⟨hheldAfter, hpassedAfter, huncountedAfter⟩ := weights_of_isFree free
      refine ⟨fun i => ?_, fun i => ?_, ?_⟩ <;> simp only [State.moveConnection] <;> grind
  | pop c i rest phase front =>
      refine ⟨fun j => ?_, fun j => ?_, ?_⟩ <;> simp only [State.moveConnection] <;>
        grind [Connection.held, Connection.passed, Connection.uncounted]
  | hand c i success next phase answered =>
      obtain ⟨hheldAfter, hpassedAfter, huncountedAfter⟩ := weights_of_answered answered
      refine ⟨fun j => ?_, fun j => ?_, ?_⟩ <;> simp only [State.moveConnection] <;>
        grind [Connection.held, Connection.passed, Connection.uncounted]
  | complete c i outcome phase outcomes =>
      refine ⟨fun j => ?_, fun j => ?_, ?_⟩ <;> simp only [State.moveConnection] <;>
        grind [Connection.held, Connection.passed, Connection.uncounted]
  | count c i outcome phase =>
      refine ⟨fun j => ?_, fun j => ?_, ?_⟩ <;> simp only [State.moveConnection] <;>
        grind [Connection.held, Connection.passed, Connection.uncounted]
  | report c i outcome phase =>
      refine ⟨fun j => ?_, fun j => ?_, ?_⟩ <;>
        simp only [State.moveConnection, State.writeOutcome] <;>
        grind [Connection.held, Connection.passed, Connection.uncounted]
  | _ => exact ⟨htaken, hhanded, hcounted⟩

/-- The successful call of Paho for job `i`. -/
def Sent (request : ι → PublishCall) (s : State κ ι) (i : ι) : Prop :=
  (i, pubMessage (request i), true) ∈ s.handed

/-- Is the outcome on its way, or written, that job `i` was published? -/
def Connection.claims (i : ι) : Connection ι → Prop
  | .awaiting j => j = i
  | .counting j outcome => j = i ∧ outcome = .ok
  | .reporting j outcome => j = i ∧ outcome = .ok
  | _ => False

/-- The outcome that a connection is about to count or to write. -/
def Connection.outcome : Connection ι → Option PublishOutcome
  | .counting _ outcome => some outcome
  | .reporting _ outcome => some outcome
  | _ => none

/-- Whoever says `ok` has seen the job's message go out. -/
structure Reported (request : ι → PublishCall) (s : State κ ι) : Prop where
  message : ∀ x ∈ s.handed, x.2.1 = pubMessage (request x.1)
  connections : ∀ c i, (s.connection c).claims i → Sent request s i
  jobs : ∀ i, (s.job i).outcome = .ok → Sent request s i
  callers : ∀ i, s.caller i = .returned .ok → Sent request s i

/-- `QueueFull` is the answer to a refused call only. -/
structure Refused (s : State κ ι) : Prop where
  connections : ∀ c, (s.connection c).outcome ≠ some .queueFull
  jobs : ∀ i, (s.job i).outcome ≠ .queueFull
  counted : ∀ x ∈ s.counted, x.2 ≠ .queueFull
  callers : ∀ i, s.caller i = .returned .queueFull → i ∉ s.accepted

omit [DecidableEq κ] [DecidableEq ι] [Fintype κ] in
theorem not_claims_of_isFree {phase : Connection ι}
    (h : phase.isFree = true ∨ phase = .exited) (i : ι) : ¬ phase.claims i := by
  cases phase <;> simp_all [Connection.isFree, Connection.claims]

omit [DecidableEq κ] [DecidableEq ι] [Fintype κ] in
theorem outcome_of_isFree {phase : Connection ι}
    (h : phase.isFree = true ∨ phase = .exited) : phase.outcome = none := by
  cases phase <;> simp_all [Connection.isFree, Connection.outcome]

omit [DecidableEq κ] [DecidableEq ι] [Fintype κ] in
/-- Only a successful call leads to a phase that may end in `ok`. -/
theorem claims_of_answered {qos : Int} {i j : ι} {success : Bool} {next : Connection ι}
    (h : Answered qos i success next) (hclaims : next.claims j) : success = true ∧ i = j := by
  cases h with
  | refused => cases hclaims.2
  | sent zero => exact ⟨rfl, hclaims.1⟩
  | pending acknowledged => exact ⟨rfl, hclaims⟩

omit [Fintype κ] in
/-- What a caller is told was reported for its job. -/
theorem reported_transition (hs : Reported request s) (h : Transition cfg request s t) :
    Reported request t := by
  obtain ⟨hmessage, hconnections, hjobs, hcallers⟩ := hs
  cases h with
  | turn c next phase free =>
      refine ⟨hmessage, fun d j hclaims => ?_, hjobs, hcallers⟩
      by_cases hdc : d = c
      · subst hdc
        simp only [State.moveConnection, Function.update_self] at hclaims
        exact (not_claims_of_isFree free j hclaims).elim
      · simp only [State.moveConnection, Function.update_of_ne hdc] at hclaims
        exact hconnections d j hclaims
  | hand c i success next phase answered =>
      have hkeep : ∀ j, Sent request s j → (j, pubMessage (request j), true) ∈
          s.handed ++ [(i, pubMessage (request i), success)] :=
        fun j hj => List.mem_append_left _ hj
      refine ⟨?_, fun d j hclaims => ?_, fun j hj => hkeep j (hjobs j hj),
        fun j hj => hkeep j (hcallers j hj)⟩
      · intro x hx
        rcases List.mem_append.mp hx with hx | hx
        · exact hmessage x hx
        · rw [List.mem_singleton.mp hx]
      · by_cases hdc : d = c
        · subst hdc
          simp only [State.moveConnection, Function.update_self] at hclaims
          obtain ⟨hsuccess, hij⟩ := claims_of_answered answered hclaims
          subst hsuccess hij
          exact List.mem_append_right _ (List.mem_singleton_self _)
        · simp only [State.moveConnection, Function.update_of_ne hdc] at hclaims
          exact hkeep j (hconnections d j hclaims)
  | _ =>
      refine ⟨?_, ?_, ?_, ?_⟩ <;>
        simp only [State.moveConnection, State.moveCaller, State.writeOutcome, Sent,
          Function.update_apply] at * <;>
        grind [Connection.claims]

omit [Fintype κ] in
/-- A caller that was refused has no job in the queue. -/
theorem refused_transition (hq : Queued cfg s) (hs : Refused s)
    (h : Transition cfg request s t) : Refused t := by
  obtain ⟨hconnections, hjobs, hcounted, hcallers⟩ := hs
  have hcalled := hq.called
  cases h with
  | turn c next phase free =>
      refine ⟨fun d => ?_, hjobs, hcounted, hcallers⟩
      by_cases hdc : d = c
      · subst hdc
        simp [State.moveConnection, outcome_of_isFree free]
      · simpa [State.moveConnection, Function.update_of_ne hdc] using hconnections d
  | _ =>
      refine ⟨?_, ?_, ?_, ?_⟩ <;>
        simp only [State.moveConnection, State.moveCaller, State.writeOutcome,
          Function.update_apply] at * <;>
        grind [Connection.outcome, Answered]

def State.countedAs (s : State κ ι) (outcome : PublishOutcome) : Nat :=
  (s.counted.map Prod.snd).count outcome

/-- The counters, which are 64 bits wide, tell the number of each outcome. -/
structure Metered (s : State κ ι) : Prop where
  ok : s.metrics.mqttPublishOkTotal = UInt64.ofNat (s.countedAs .ok)
  failed : s.metrics.mqttPublishFailedTotal = UInt64.ofNat (s.countedAs .failed)
  timeout : s.metrics.mqttPublishTimeoutTotal = UInt64.ofNat (s.countedAs .timeout)

omit [Fintype κ] in
/-- Every outcome is counted once. -/
theorem metered_transition (hs : Metered s) (h : Transition cfg request s t) : Metered t := by
  obtain ⟨hok, hfailed, htimeout⟩ := hs
  cases h with
  | count c i outcome phase =>
      cases outcome <;> constructor <;>
        simp [State.moveConnection, State.countedAs, Metrics.recordPublish] at * <;>
        simp [*]
  | _ => exact ⟨hok, hfailed, htimeout⟩

omit [DecidableEq ι] in
/-- The outcomes other than `queueFull` make up all that is counted. -/
theorem length_eq_outcomes {counted : List (ι × PublishOutcome)}
    (h : ∀ x ∈ counted, x.2 ≠ .queueFull) :
    counted.length = (counted.map Prod.snd).count .ok + (counted.map Prod.snd).count .failed +
      (counted.map Prod.snd).count .timeout := by
  induction counted with
  | nil => rfl
  | cons x counted ih =>
      have hx := h x List.mem_cons_self
      have hrest := ih fun y hy => h y (List.mem_cons_of_mem x hy)
      obtain ⟨i, outcome⟩ := x
      cases outcome <;> simp_all <;> omega

/-- The job that a connection has not handed over yet. -/
def Connection.ahead : Connection ι → Option ι
  | .holding i => some i
  | _ => none

/-- With a single connection the jobs reach Paho in the order they are popped. -/
def InOrder (s : State κ ι) : Prop :=
  ∀ c, s.taken = s.handed.map Prod.fst ++ (s.connection c).ahead.toList

omit [DecidableEq κ] [DecidableEq ι] [Fintype κ] in
/-- A free connection is ahead with no job. -/
theorem ahead_of_isFree {phase : Connection ι} (h : phase.isFree = true ∨ phase = .exited) :
    phase.ahead = none := by
  cases phase <;> simp_all [Connection.isFree, Connection.ahead]

omit [DecidableEq κ] [DecidableEq ι] [Fintype κ] in
theorem ahead_of_answered {qos : Int} {i : ι} {success : Bool} {next : Connection ι}
    (h : Answered qos i success next) : next.ahead = none := by
  cases h <;> rfl

omit [DecidableEq ι] [Fintype κ] in
/-- The only connection moves on. -/
theorem inOrder_moveConnection [Subsingleton κ] {c : κ} {next : Connection ι}
    (h : s.taken = s.handed.map Prod.fst ++ next.ahead.toList) :
    InOrder (s.moveConnection c next) := by
  intro d
  obtain rfl := Subsingleton.elim d c
  simpa [State.moveConnection] using h

omit [Fintype κ] in
/-- One connection publishes in the order of the queue. -/
theorem inOrder_transition [Subsingleton κ] (hs : InOrder s) (h : Transition cfg request s t) :
    InOrder t := by
  cases h with
  | turn c next phase free =>
      apply inOrder_moveConnection
      rw [hs c, ahead_of_isFree (.inl phase), ahead_of_isFree free]
  | pop c i rest phase front =>
      apply inOrder_moveConnection
      simp [hs c, phase, Connection.ahead]
  | hand c i success next phase answered =>
      apply inOrder_moveConnection
      rw [ahead_of_answered answered]
      simp [hs c, phase, Connection.ahead]
  | complete c i outcome phase outcomes =>
      apply inOrder_moveConnection
      simp [hs c, phase, Connection.ahead]
  | count c i outcome phase =>
      apply inOrder_moveConnection
      simp [hs c, phase, Connection.ahead]
  | report c i outcome phase =>
      apply inOrder_moveConnection
      simp [State.writeOutcome, hs c, phase, Connection.ahead]
  | _ => exact fun d => hs d

/-- The invariant of all runs. -/
structure Inv (cfg : Config) (request : ι → PublishCall) (s : State κ ι) : Prop where
  queued : Queued cfg s
  counted : Counted s
  reported : Reported request s
  refused : Refused s
  metered : Metered s

/-- **One step** keeps the invariant. -/
theorem inv_step (hs : Inv cfg request s) {a : Action κ ι}
    (h : step cfg request s a = some t) : Inv cfg request t := by
  have htransition := transition_of_step h
  exact ⟨queued_transition hs.queued htransition, counted_transition hs.counted htransition,
    reported_transition hs.reported htransition,
    refused_transition hs.queued hs.refused htransition,
    metered_transition hs.metered htransition⟩

omit [DecidableEq κ] in
theorem inv_start : Inv cfg request (start κ ι) where
  queued := by constructor <;> simp [start, Stopper.pending, Stopper.hasJoined]
  counted := by
    constructor <;> simp [start, tally, Connection.held, Connection.passed, Connection.uncounted]
  reported := by constructor <;> simp [start, Connection.claims]
  refused := by constructor <;> simp [start, Connection.outcome]
  metered := by constructor <;> simp [start, State.countedAs]

/-- The callers' promise: a topic without NUL, a payload whose length is an `int`. -/
def Deliverable (job : PublishCall) : Prop :=
  (∀ c ∈ job.topic, c ≠ 0) ∧ job.payload.length < 2 ^ 31

/-- Paho is then given exactly the job. -/
theorem pubMessage_of_deliverable {job : PublishCall} (h : Deliverable job) :
    pubMessage job =
      ⟨job.topic, job.payload, job.payload.length, job.qos, if job.retain then 1 else 0⟩ := by
  have hlength : Int.bmod job.payload.length (2 ^ 32) = job.payload.length := by
    have hbound := h.2
    apply Int.bmod_eq_of_le <;> omega
  unfold pubMessage
  rw [cString_of_plain h.1, hlength]

/-- What holds of the client at any moment. -/
structure Safe (cfg : Config) (request : ι → PublishCall) (s : State κ ι) : Prop where
  bounded : s.queue.length ≤ cfg.mqttQueueSize.toNat
  handedOnce : (s.handed.map Prod.fst).Nodup
  refusedNever : ∀ i, s.caller i = .returned .queueFull → i ∉ s.handed.map Prod.fst
  stoppedNever : ∀ i ∈ s.stopped, i ∉ s.handed.map Prod.fst
  /-- `Ok` tells of the one call of Paho for this job, which succeeded. -/
  okSent : ∀ i, s.caller i = .returned .ok →
    s.handed.filter (·.1 = i) = [(i, pubMessage (request i), true)]
  /-- That call had the job's own topic, payload, QoS and retain flag. -/
  okExact : ∀ i, s.caller i = .returned .ok → Deliverable (request i) →
    s.handed.filter (·.1 = i) = [(i, ⟨(request i).topic, (request i).payload,
      (request i).payload.length, (request i).qos, if (request i).retain then 1 else 0⟩, true)]
  writtenOnce : (s.reported ++ s.stopped).Nodup
  /-- Every accepted job is in one place. -/
  conserved : s.accepted.length = (s.stopper.pending s.queue).length +
    tally Connection.uncounted s.connection + s.countedAs .ok + s.countedAs .failed +
    s.countedAs .timeout + s.stopped.length
  counters : Metered s

omit [DecidableEq κ] in
/-- No job is handed to the broker or reported more often than it was taken, and that is once at
most. -/
theorem Inv.count_le (hs : Inv cfg request s) (i : ι) :
    (s.handed.map Prod.fst).count i ≤ s.taken.count i ∧ s.reported.count i ≤ s.taken.count i ∧
      s.taken.count i + s.stopped.count i ≤ s.accepted.count i ∧ s.accepted.count i ≤ 1 := by
  have hweights : tally (Connection.passed i) s.connection ≤
      tally (Connection.held i) s.connection := by
    apply tally_mono
    intro phase
    cases phase <;> simp [Connection.passed, Connection.held]
  have htaken := hs.counted.taken i
  have hhanded := hs.counted.handed i
  have haccepted : s.accepted.count i = s.taken.count i + s.stopped.count i +
      (s.stopper.pending s.queue).count i := by
    rw [hs.queued.order, List.count_append, List.count_append]
  have honce := List.nodup_iff_count_le_one.mp hs.queued.nodup i
  omega

omit [DecidableEq κ] in
/-- What Paho was given was accepted, and not failed by `stop`. -/
theorem Inv.of_handed (hs : Inv cfg request s) {i : ι} (h : i ∈ s.handed.map Prod.fst) :
    i ∈ s.accepted ∧ i ∉ s.stopped ∧ (s.handed.map Prod.fst).count i = 1 := by
  have hpositive := List.count_pos_iff.mpr h
  obtain ⟨hhanded, -, haccepted, honce⟩ := hs.count_le i
  refine ⟨List.count_pos_iff.mp (by omega), fun hstopped => ?_, by omega⟩
  have := List.count_pos_iff.mpr hstopped
  omega

/-- A key that occurs once selects the one entry that has it. -/
theorem filter_eq_singleton {α : Type*} {entries : List (ι × α)} {x : ι × α}
    (hx : x ∈ entries) (honce : (entries.map Prod.fst).count x.1 = 1) :
    entries.filter (·.1 = x.1) = [x] := by
  have hmem : x ∈ entries.filter (·.1 = x.1) := List.mem_filter.mpr ⟨hx, by simp⟩
  have hlength : (entries.filter (·.1 = x.1)).length = 1 := by
    rw [← honce, List.count_eq_countP, List.countP_map, List.countP_eq_length_filter]
    rfl
  obtain ⟨y, hy⟩ := List.length_eq_one_iff.mp hlength
  rw [hy, List.mem_singleton] at hmem
  rw [hy, hmem]

omit [DecidableEq κ] in
/-- A caller that was told `ok` has one successful call of the library to show. -/
theorem Inv.okSent (hs : Inv cfg request s) {i : ι} (hok : s.caller i = .returned .ok) :
    s.handed.filter (·.1 = i) = [(i, pubMessage (request i), true)] := by
  have hsent := hs.reported.callers i hok
  exact filter_eq_singleton hsent (hs.of_handed (List.mem_map_of_mem hsent)).2.2

omit [DecidableEq κ] in
/-- The invariant is what is claimed of every run. -/
theorem Inv.safe (hs : Inv cfg request s) : Safe cfg request s where
  bounded := hs.queued.bounded
  handedOnce := by
    apply List.nodup_iff_count_le_one.mpr
    intro i
    obtain ⟨hhanded, -, haccepted, honce⟩ := hs.count_le i
    omega
  refusedNever i hrefused hhanded := hs.refused.callers i hrefused (hs.of_handed hhanded).1
  stoppedNever i hstopped hhanded := (hs.of_handed hhanded).2.1 hstopped
  okSent _ hok := hs.okSent hok
  okExact i hok hdeliverable := by
    rw [hs.okSent hok, pubMessage_of_deliverable hdeliverable]
  writtenOnce := by
    apply List.nodup_iff_count_le_one.mpr
    intro i
    obtain ⟨-, hreported, haccepted, honce⟩ := hs.count_le i
    rw [List.count_append]
    omega
  conserved := by
    have hlength := congrArg List.length hs.queued.order
    have htaken := hs.counted.counted
    have houtcomes := length_eq_outcomes hs.refused.counted
    simp only [List.length_append] at hlength
    simp only [State.countedAs]
    omega
  counters := hs.metered

/-- **The publish queue is safe** in every run, for any number of callers and
connections, whatever Paho answers. -/
theorem publishSafe_of_run {schedule : List (Action κ ι)}
    (hrun : runFrom (step cfg request) (start κ ι) schedule = some s) :
    Safe cfg request s ∧ (Fintype.card κ = 1 → s.handed.map Prod.fst <+: s.accepted) := by
  have hinv : Inv cfg request s :=
    invariant_of_run (fun _ _ _ hs hstep => inv_step hs hstep) inv_start hrun
  refine ⟨hinv.safe, fun hcard => ?_⟩
  obtain ⟨c, hc⟩ := Fintype.card_eq_one_iff.mp hcard
  have hsingle : Subsingleton κ := ⟨fun d e => (hc d).trans (hc e).symm⟩
  have horder : InOrder s :=
    invariant_of_run (fun _ _ _ hs hstep => inOrder_transition hs (transition_of_step hstep))
      (fun _ => rfl) hrun
  rw [hinv.queued.order, horder c]
  simp only [List.append_assoc]
  exact List.prefix_append _ _

section

local instance neZeroOne : NeZero 1 := ⟨one_ne_zero⟩
local instance neZeroTwo : NeZero 2 := ⟨two_ne_zero⟩

/-- Two calls: `0` is published by a connection and returns `Ok`, `1` finds the queue
full; then the client is stopped. -/
def twoCalls : List (Action (Fin 1) (Fin 2)) :=
  [.work 0 true, .publish 0, .publish 1, .work 0 true, .work 0 true, .work 0 true,
    .work 0 true, .work 0 true, .work 0 true, .wake 0, .stop, .work 0 true, .stop, .stop]

end

/-- The second of two calls finds the queue full. -/
theorem safe_twoCalls :
    ∃ s, runFrom (step { mqttQueueSize := 1 } fun _ => ⟨ascii "lamp", ascii "on", 1, false⟩)
        (start (Fin 1) (Fin 2)) twoCalls = some s ∧
      (Safe { mqttQueueSize := 1 } (fun _ => ⟨ascii "lamp", ascii "on", 1, false⟩) s ∧
        (Fintype.card (Fin 1) = 1 → s.handed.map Prod.fst <+: s.accepted)) ∧
      s.caller 0 = .returned .ok ∧ s.caller 1 = .returned .queueFull := by
  obtain ⟨s, hrun, hs⟩ := exists_of_runFrom
    (step { mqttQueueSize := 1 } fun _ => ⟨ascii "lamp", ascii "on", 1, false⟩)
    (start (Fin 1) (Fin 2)) twoCalls
    (fun s => s.caller 0 = .returned .ok ∧ s.caller 1 = .returned .queueFull) (by decide)
  exact ⟨s, hrun, publishSafe_of_run hrun, of_decide_eq_true hs⟩

end PublishQueue

end Nshmqtt
