import Nshmqtt.BoundedQueues
import Nshmqtt.MessageHandler
import Nshmqtt.Metrics
import Nshmqtt.TransitionRuns
import Mathlib.Data.Bool.Count

/-!
# From arrived messages to webhook posts

`on_message_arrived` and `subscribe_worker_loop` in `mqtt.cpp`, the message
handler of `main.cpp`, and `enqueue` and `worker_loop` in `webhook.cpp`, as long
as neither client is stopped.  Two bounded queues are chained: Paho's thread
fills the first, the subscribe worker moves matching messages to the second, and
the webhook worker posts them.
-/

namespace Nshmqtt

open BoundedQueues TransitionRuns

namespace MessagePipeline

/-- The point the subscribe worker has reached. -/
inductive SubscribeWorker
  /-- Waiting for a message. -/
  | waiting
  /-- In the handler. -/
  | handling (msg : IncomingMessage)
  /-- In the handler, about to enqueue a matching message. -/
  | forwarding (msg : IncomingMessage)
  deriving DecidableEq

/-- The point the webhook worker has reached. -/
inductive WebhookWorker
  | waiting
  /-- In `http.post`. -/
  | posting (msg : IncomingMessage)
  deriving DecidableEq

structure State where
  incoming : BoundedQueue IncomingMessage
  worker : SubscribeWorker
  store : StateStore
  jobs : BoundedQueue IncomingMessage
  webhook : WebhookWorker
  metrics : Metrics
  /-- The messages for which the handler has returned. -/
  handled : List IncomingMessage
  /-- The finished calls of `http.post`, with their success. -/
  posts : List (IncomingMessage × Bool)

inductive Action
  /-- `on_message_arrived`. -/
  | arrive (msg : IncomingMessage)
  /-- The subscribe worker takes a message. -/
  | take
  /-- The handler updates the store. -/
  | handle
  /-- The handler calls `WebhookClient::enqueue`. -/
  | forward
  /-- The webhook worker takes a job. -/
  | pick
  /-- `http.post` returns. -/
  | post (ok : Bool)

/-- Is there a subscribe worker? -/
def needsSubscribeWorker (cfg : Config) : Bool :=
  (cfg.subscribeEnabled && !cfg.subscribeTopics.isEmpty) ||
    (cfg.webhookEnabled && !cfg.webhookTopics.isEmpty)

def onMessageArrived (cfg : Config) (s : State) (msg : IncomingMessage) : State :=
  let received := s.metrics.mqttMessagesReceivedTotal + 1
  if s.incoming.isFull cfg.mqttQueueSize then
    { s with
      metrics := { s.metrics with
        mqttMessagesReceivedTotal := received
        mqttMessagesDroppedTotal := s.metrics.mqttMessagesDroppedTotal + 1 }
      incoming := s.incoming.offer cfg.mqttQueueSize msg }
  else
    { s with
      metrics := { s.metrics with mqttMessagesReceivedTotal := received }
      incoming := s.incoming.offer cfg.mqttQueueSize msg }

/-- `WebhookClient::enqueue`, while the client runs. -/
def enqueue (cfg : Config) (s : State) (msg : IncomingMessage) : State :=
  if s.jobs.isFull cfg.webhookQueueSize then
    { s with
      metrics.webhookQueueFullTotal := s.metrics.webhookQueueFullTotal + 1
      jobs := s.jobs.offer cfg.webhookQueueSize msg }
  else { s with jobs := s.jobs.offer cfg.webhookQueueSize msg }

def recordPost (metrics : Metrics) (ok : Bool) : Metrics :=
  if ok then { metrics with webhookDeliveredTotal := metrics.webhookDeliveredTotal + 1 }
  else { metrics with webhookFailedTotal := metrics.webhookFailedTotal + 1 }

def step (cfg : Config) (s : State) : Action → Option State
  | .arrive msg => some (onMessageArrived cfg s msg)
  | .take =>
      match s.worker, s.incoming.entries with
      | .waiting, msg :: rest =>
          if needsSubscribeWorker cfg then
            some { s with incoming := s.incoming.pop msg rest, worker := .handling msg }
          else none
      | _, _ => none
  | .handle =>
      match s.worker with
      | .handling msg =>
          let result := messageHandler cfg s.store msg
          match result.webhook with
          | none =>
              some { s with
                store := result.store
                worker := .waiting
                handled := s.handled ++ [msg] }
          | some forwarded =>
              some { s with store := result.store, worker := .forwarding forwarded }
      | _ => none
  | .forward =>
      match s.worker with
      | .forwarding msg =>
          some { enqueue cfg s msg with worker := .waiting, handled := s.handled ++ [msg] }
      | _ => none
  | .pick =>
      match s.webhook, s.jobs.entries with
      | .waiting, msg :: rest =>
          some { s with jobs := s.jobs.pop msg rest, webhook := .posting msg }
      | _, _ => none
  | .post ok =>
      match s.webhook with
      | .posting msg =>
          some { s with
            webhook := .waiting
            posts := s.posts ++ [(msg, ok)]
            metrics := recordPost s.metrics ok }
      | .waiting => none

/-- Both clients have just been started. -/
def start (store : StateStore) : State where
  incoming := {}
  worker := .waiting
  store := store
  jobs := {}
  webhook := .waiting
  metrics := {}
  handled := []
  posts := []

/-- The message that the subscribe worker has taken and not finished. -/
@[simp]
def SubscribeWorker.inHand : SubscribeWorker → List IncomingMessage
  | .waiting => []
  | .handling msg => [msg]
  | .forwarding msg => [msg]

/-- The message that is being posted. -/
@[simp]
def WebhookWorker.inFlight : WebhookWorker → List IncomingMessage
  | .waiting => []
  | .posting msg => [msg]

/-- The messages that the handler hands to the webhook. -/
def isForwarded (cfg : Config) (msg : IncomingMessage) : Bool :=
  cfg.webhookEnabled && topicMatchesAny msg.topic cfg.webhookTopics

def State.postedWith (s : State) (ok : Bool) : Nat := (s.posts.map Prod.snd).count ok

/-- The counters, which are 64 bits wide, tell the number of the events. -/
structure Metered (s : State) : Prop where
  received : s.metrics.mqttMessagesReceivedTotal = UInt64.ofNat s.incoming.offered.length
  dropped : s.metrics.mqttMessagesDroppedTotal = UInt64.ofNat s.incoming.dropped
  delivered : s.metrics.webhookDeliveredTotal = UInt64.ofNat (s.postedWith true)
  failed : s.metrics.webhookFailedTotal = UInt64.ofNat (s.postedWith false)
  queueFull : s.metrics.webhookQueueFullTotal = UInt64.ofNat s.jobs.dropped

/-- Each stage hands on exactly what it has finished. -/
structure Inv (cfg : Config) (s : State) : Prop where
  incoming : Balanced cfg.mqttQueueSize s.incoming
  jobs : Balanced cfg.webhookQueueSize s.jobs
  taken : s.incoming.taken = s.handled ++ s.worker.inHand
  forwarding : ∀ msg, s.worker = .forwarding msg → isForwarded cfg msg = true
  offered : s.jobs.offered = s.handled.filter (isForwarded cfg)
  picked : s.jobs.taken = s.posts.map Prod.fst ++ s.webhook.inFlight
  metered : Metered s

variable {cfg : Config} {s t : State}

/-- The handler forwards what it is to forward. -/
theorem webhook_messageHandler (cfg : Config) (store : StateStore) (msg : IncomingMessage) :
    (messageHandler cfg store msg).webhook = if isForwarded cfg msg then some msg else none :=
  rfl

/-- A message arrives, or it is dropped where the queue is full. -/
theorem inv_arrive (hs : Inv cfg s) (msg : IncomingMessage) :
    Inv cfg (onMessageArrived cfg s msg) := by
  obtain ⟨hincoming, hjobs, htaken, hforwarding, hoffered, hpicked, hmetered⟩ := hs
  obtain ⟨hreceived, hdropped, hdelivered, hfailed, hqueueFull⟩ := hmetered
  have hbalanced := hincoming.offer msg
  have hcount := dropped_offer cfg.mqttQueueSize s.incoming msg
  unfold onMessageArrived
  split_ifs with hfull
  · rw [if_pos hfull] at hcount
    refine ⟨hbalanced, hjobs, by simpa using htaken, hforwarding, hoffered, hpicked,
      ⟨?_, ?_, hdelivered, hfailed, hqueueFull⟩⟩
    · simp [hreceived]
    · simp [hdropped, hcount]
  · rw [if_neg hfull] at hcount
    refine ⟨hbalanced, hjobs, by simpa using htaken, hforwarding, hoffered, hpicked,
      ⟨?_, ?_, hdelivered, hfailed, hqueueFull⟩⟩
    · simp [hreceived]
    · simp [hdropped, hcount]

/-- A message that was handled is offered to the webhook queue. -/
theorem inv_forward (hs : Inv cfg s) {msg : IncomingMessage}
    (hworker : s.worker = .forwarding msg) :
    Inv cfg { enqueue cfg s msg with worker := .waiting, handled := s.handled ++ [msg] } := by
  have hmatches := hs.forwarding msg hworker
  obtain ⟨hincoming, hjobs, htaken, -, hoffered, hpicked, hmetered⟩ := hs
  obtain ⟨hreceived, hdropped, hdelivered, hfailed, hqueueFull⟩ := hmetered
  rw [hworker] at htaken
  have hhanded : s.incoming.taken = s.handled ++ [msg] ++ [] := by simpa using htaken
  have hbalanced := hjobs.offer msg
  have hcount := dropped_offer cfg.webhookQueueSize s.jobs msg
  unfold enqueue
  split_ifs with hfull
  · rw [if_pos hfull] at hcount
    refine ⟨hincoming, hbalanced, hhanded, nofun, ?_, by simpa using hpicked,
      ⟨hreceived, hdropped, hdelivered, hfailed, ?_⟩⟩
    · simp [hoffered, hmatches]
    · simp [hqueueFull, hcount]
  · rw [if_neg hfull] at hcount
    refine ⟨hincoming, hbalanced, hhanded, nofun, ?_, by simpa using hpicked,
      ⟨hreceived, hdropped, hdelivered, hfailed, ?_⟩⟩
    · simp [hoffered, hmatches]
    · simp [hqueueFull, hcount]

/-- A message is handled, and only then forwarded. -/
theorem inv_handle (hs : Inv cfg s) {msg : IncomingMessage}
    (hworker : s.worker = .handling msg) (h : step cfg s .handle = some t) : Inv cfg t := by
  obtain ⟨hincoming, hjobs, htaken, -, hoffered, hpicked, hmetered⟩ := hs
  obtain ⟨hreceived, hdropped, hdelivered, hfailed, hqueueFull⟩ := hmetered
  rw [hworker] at htaken
  simp only [step, hworker, webhook_messageHandler] at h
  split_ifs at h with hmatches
  · obtain rfl := Option.some.inj h
    refine ⟨hincoming, hjobs, htaken, ?_, hoffered, hpicked,
      ⟨hreceived, hdropped, hdelivered, hfailed, hqueueFull⟩⟩
    intro forwarded hforwarded
    cases hforwarded
    exact hmatches
  · obtain rfl := Option.some.inj h
    refine ⟨hincoming, hjobs, by simpa using htaken, nofun, ?_, hpicked,
      ⟨hreceived, hdropped, hdelivered, hfailed, hqueueFull⟩⟩
    simp [hoffered, hmatches]

/-- A post ends well or badly, and is counted. -/
theorem inv_post (hs : Inv cfg s) {msg : IncomingMessage} (hwebhook : s.webhook = .posting msg)
    (ok : Bool) :
    Inv cfg { s with
      webhook := .waiting
      posts := s.posts ++ [(msg, ok)]
      metrics := recordPost s.metrics ok } := by
  obtain ⟨hincoming, hjobs, htaken, hforwarding, hoffered, hpicked, hmetered⟩ := hs
  obtain ⟨hreceived, hdropped, hdelivered, hfailed, hqueueFull⟩ := hmetered
  rw [hwebhook] at hpicked
  refine ⟨hincoming, hjobs, htaken, hforwarding, hoffered,
    by simpa [WebhookWorker.inFlight] using hpicked, ?_⟩
  cases ok <;>
    exact ⟨hreceived, hdropped, by simp [recordPost, State.postedWith, hdelivered],
      by simp [recordPost, State.postedWith, hfailed], hqueueFull⟩

/-- **One step** keeps the invariant. -/
theorem inv_step (hs : Inv cfg s) {a : Action} (h : step cfg s a = some t) : Inv cfg t := by
  cases a with
  | arrive msg => exact Option.some.inj h ▸ inv_arrive hs msg
  | take =>
      obtain ⟨hincoming, hjobs, htaken, hforwarding, hoffered, hpicked, hmetered⟩ := hs
      obtain ⟨hreceived, hdropped, hdelivered, hfailed, hqueueFull⟩ := hmetered
      simp only [step] at h
      split at h
      · rename_i msg rest hworker hfront
        split_ifs at h
        obtain rfl := Option.some.inj h
        rw [hworker] at htaken
        refine ⟨hincoming.pop hfront, hjobs, ?_, nofun, hoffered, hpicked,
          ⟨hreceived, hdropped, hdelivered, hfailed, hqueueFull⟩⟩
        simpa [BoundedQueue.pop, SubscribeWorker.inHand] using htaken
      · cases h
  | handle =>
      cases hworker : s.worker with
      | handling msg => exact inv_handle hs hworker h
      | waiting => simp [step, hworker] at h
      | forwarding msg => simp [step, hworker] at h
  | forward =>
      simp only [step] at h
      split at h
      · rename_i msg hworker
        exact Option.some.inj h ▸ inv_forward hs hworker
      · cases h
  | pick =>
      obtain ⟨hincoming, hjobs, htaken, hforwarding, hoffered, hpicked, hmetered⟩ := hs
      obtain ⟨hreceived, hdropped, hdelivered, hfailed, hqueueFull⟩ := hmetered
      simp only [step] at h
      split at h
      · rename_i msg rest hwebhook hfront
        obtain rfl := Option.some.inj h
        rw [hwebhook] at hpicked
        refine ⟨hincoming, hjobs.pop hfront, htaken, hforwarding, hoffered, ?_,
          ⟨hreceived, hdropped, hdelivered, hfailed, hqueueFull⟩⟩
        simpa [BoundedQueue.pop, WebhookWorker.inFlight] using hpicked
      · cases h
  | post ok =>
      simp only [step] at h
      split at h
      · rename_i msg hwebhook
        exact Option.some.inj h ▸ inv_post hs hwebhook ok
      · cases h

/-- At first nothing has arrived. -/
theorem inv_start (cfg : Config) (store : StateStore) : Inv cfg (start store) where
  incoming := balanced_empty _
  jobs := balanced_empty _
  taken := rfl
  forwarding := nofun
  offered := rfl
  picked := rfl
  metered := by constructor <;> rfl

/-- What holds of both clients at any moment. -/
structure Accounted (cfg : Config) (s : State) : Prop where
  incomingBounded : s.incoming.entries.length ≤ cfg.mqttQueueSize.toNat
  jobsBounded : s.jobs.entries.length ≤ cfg.webhookQueueSize.toNat
  /-- The messages that have arrived are handled in order, none twice. -/
  handledOrder : s.handled.Sublist s.incoming.offered
  received : s.incoming.offered.length =
    s.incoming.dropped + s.incoming.entries.length + s.incoming.taken.length
  /-- A handled message that matches is posted, refused, queued or in flight. -/
  matched : cfg.webhookEnabled = true →
    (s.handled.filter fun msg => topicMatchesAny msg.topic cfg.webhookTopics).length =
      s.postedWith true + s.postedWith false + s.jobs.dropped +
        (s.jobs.entries.length + s.webhook.inFlight.length)
  /-- The matching messages are posted in order, none twice. -/
  postsOrder : (s.posts.map Prod.fst ++ s.webhook.inFlight).Sublist s.handled
  metered : Metered s

/-- The invariant says where every message is. -/
theorem Inv.accounted (hs : Inv cfg s) : Accounted cfg s where
  incomingBounded := hs.incoming.bounded
  jobsBounded := hs.jobs.bounded
  handledOrder := by
    have htaken := hs.incoming.taken_sublist
    rw [hs.taken] at htaken
    exact (List.sublist_append_left _ _).trans htaken
  received := hs.incoming.counted
  matched henabled := by
    have hfilter : (s.handled.filter fun msg => topicMatchesAny msg.topic cfg.webhookTopics) =
        s.jobs.offered := by
      rw [hs.offered]
      unfold isForwarded
      simp [henabled]
    have hposts : s.posts.length = s.postedWith true + s.postedWith false := by
      rw [State.postedWith, State.postedWith, List.count_true_add_count_false, List.length_map]
    have hpicked := congrArg List.length hs.picked
    rw [List.length_append, List.length_map] at hpicked
    rw [hfilter, hs.jobs.counted]
    omega
  postsOrder := by
    have hsublist := hs.jobs.taken_sublist
    rw [hs.picked, hs.offered] at hsublist
    exact hsublist.trans List.filter_sublist
  metered := hs.metered

/-- **Every message is accounted for** in every interleaving, up to the moment at
which a client is stopped. -/
theorem accounted_of_run {store : StateStore} {schedule : List Action}
    (hrun : runFrom (step cfg) (start store) schedule = some s) : Accounted cfg s := by
  have hinv : Inv cfg s :=
    invariant_of_run (fun _ _ _ hs hstep => inv_step hs hstep) (inv_start cfg store) hrun
  exact hinv.accounted

/-- Queues of one: the first message is posted, the second finds the first queue full,
and the third is handled while the second queue holds nothing. -/
theorem accounted_dropped_message :
    ∃ s, runFrom (step { webhookEnabled := true, mqttQueueSize := 1, webhookQueueSize := 1 })
        (start .empty) [.arrive ⟨[97], [49], false⟩, .arrive ⟨[97], [50], false⟩, .take, .handle,
          .forward, .pick, .post true, .arrive ⟨[97], [51], false⟩, .take, .handle, .forward] =
          some s ∧
      Accounted { webhookEnabled := true, mqttQueueSize := 1, webhookQueueSize := 1 } s ∧
      s.handled = [⟨[97], [49], false⟩, ⟨[97], [51], false⟩] ∧ s.incoming.dropped = 1 := by
  obtain ⟨s, hrun, hs⟩ := exists_of_runFrom
    (step { webhookEnabled := true, mqttQueueSize := 1, webhookQueueSize := 1 })
    (start .empty) [.arrive ⟨[97], [49], false⟩, .arrive ⟨[97], [50], false⟩, .take, .handle,
      .forward, .pick, .post true, .arrive ⟨[97], [51], false⟩, .take, .handle, .forward]
    (fun s => s.handled = [⟨[97], [49], false⟩, ⟨[97], [51], false⟩] ∧ s.incoming.dropped = 1)
    (by decide)
  exact ⟨s, hrun, accounted_of_run hrun, of_decide_eq_true hs⟩

end MessagePipeline

end Nshmqtt
