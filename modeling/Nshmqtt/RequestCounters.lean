import Nshmqtt.ConcurrentServer
import Nshmqtt.Tally

/-!
# The counters add up

Each connection counts its request under one of five categories and its answer under one of
three classes, one atomic addition each, in any order with the others.  At every moment the
counters are what they were plus one for each connection that came so far, and the requests
exceed the responses by the connections that are on their way or broke off in the body of their
request, modulo 2^64.
-/

namespace Nshmqtt

open ByteStrings Tally

inductive RequestCategory
  | event
  | metric
  | health
  | metrics
  | other
  deriving DecidableEq

/-- The counter that `record_request` picks. -/
def categoryOf (path : Bytes) : RequestCategory :=
  if startsWith path (ascii "/event/") then .event
  else if startsWith path (ascii "/metric/") then .metric
  else if path = ascii "/health" then .health
  else if path = ascii "/metrics" ∨ path = ascii "/metrics-state" then .metrics
  else .other

inductive StatusClass
  | success
  | clientError
  | serverError
  deriving DecidableEq

/-- The counter that `record_response` picks. -/
def classOf (status : Nat) : Option StatusClass :=
  if 200 ≤ status ∧ status < 300 then some .success
  else if 400 ≤ status ∧ status < 500 then some .clientError
  else if 500 ≤ status ∧ status < 600 then some .serverError
  else none

namespace Metrics

def requests (metrics : Metrics) : RequestCategory → UInt64
  | .event => metrics.eventRequestsTotal
  | .metric => metrics.metricRequestsTotal
  | .health => metrics.healthRequestsTotal
  | .metrics => metrics.metricsRequestsTotal
  | .other => metrics.otherRequestsTotal

def responses (metrics : Metrics) : StatusClass → UInt64
  | .success => metrics.responses2xx
  | .clientError => metrics.responses4xx
  | .serverError => metrics.responses5xx

def requestsSum (metrics : Metrics) : UInt64 :=
  metrics.requests .event + metrics.requests .metric + metrics.requests .health +
    metrics.requests .metrics + metrics.requests .other

def responsesSum (metrics : Metrics) : UInt64 :=
  metrics.responses .success + metrics.responses .clientError + metrics.responses .serverError

variable (metrics : Metrics) (path : Bytes) (status : Nat)

/-- A request is counted under its category. -/
theorem requests_recordRequest (category : RequestCategory) :
    (metrics.recordRequest path).requests category = metrics.requests category +
      UInt64.ofNat (if categoryOf path = category then 1 else 0) := by
  unfold recordRequest categoryOf
  split_ifs <;> cases category <;> simp_all [requests]

theorem responses_recordRequest : (metrics.recordRequest path).responses = metrics.responses := by
  unfold recordRequest
  split_ifs <;> rfl

/-- A response is counted under its class. -/
theorem responses_recordResponse (kind : StatusClass) :
    (metrics.recordResponse status).responses kind = metrics.responses kind +
      UInt64.ofNat (if classOf status = some kind then 1 else 0) := by
  unfold recordResponse classOf
  split_ifs <;> cases kind <;> simp_all [responses]

theorem requests_recordResponse :
    (metrics.recordResponse status).requests = metrics.requests := by
  unfold recordResponse
  split_ifs <;> rfl

end Metrics

namespace ConcurrentServer

open TransitionRuns

/-- The path under which a connection is counted once its request is read. -/
def countedPath (cfg : Config) (socket : List Recv) : Option Bytes :=
  match receive cfg socket with
  | .dropped counted => counted
  | .rejected path _ _ => some path
  | .request req => some req.path

namespace Party

/-- The party was counted under `category`. -/
def countsRequest (cfg : Config) (category : RequestCategory) : Party → Nat
  | .idle | .stored _ _ | .connection _ _ .reading => 0
  | .connection _ socket _ =>
      if (countedPath cfg socket).map categoryOf = some category then 1 else 0

/-- The party's answer was counted under `kind`. -/
def countsResponse (kind : StatusClass) : Party → Nat
  | .connection _ _ (.answered resp _) => if classOf resp.status = some kind then 1 else 0
  | _ => 0

/-- The party's request was counted, but no answer was: it is on its way, or the connection
broke off. -/
def unanswered (cfg : Config) : Party → Nat
  | .idle | .stored _ _ | .connection _ _ .reading | .connection _ _ (.answered _ _) => 0
  | .connection _ socket _ => if (countedPath cfg socket).isSome then 1 else 0

end Party

variable {Id : Type*} [Fintype Id]

/-- The counters hold what they held before, and one for each party that was counted. -/
structure CountersAccount (cfg : Config) (before : Metrics) (t : State Id) : Prop where
  requests : ∀ category, t.metrics.requests category =
    before.requests category + UInt64.ofNat (tally (Party.countsRequest cfg category) t.party)
  responses : ∀ kind, t.metrics.responses kind =
    before.responses kind + UInt64.ofNat (tally (Party.countsResponse kind) t.party)

variable [DecidableEq Id] {cfg : Config} {before : Metrics} {s t : State Id}

/-- Party `id` goes on, and each counter with it. -/
theorem CountersAccount.move (h : CountersAccount cfg before s) {id : Id} {next : Party}
    (store : StateStore) {metrics : Metrics}
    (hrequests : ∀ category, metrics.requests category +
        UInt64.ofNat ((s.party id).countsRequest cfg category) =
      s.metrics.requests category + UInt64.ofNat (next.countsRequest cfg category))
    (hresponses : ∀ kind, metrics.responses kind +
        UInt64.ofNat ((s.party id).countsResponse kind) =
      s.metrics.responses kind + UInt64.ofNat (next.countsResponse kind)) :
    CountersAccount cfg before ((⟨store, metrics, s.party⟩ : State Id).move id next) := by
  have hcounter : ∀ (weight : Party → Nat) {old new base : UInt64},
      old = base + UInt64.ofNat (tally weight s.party) →
      new + UInt64.ofNat (weight (s.party id)) = old + UInt64.ofNat (weight next) →
      new = base + UInt64.ofNat (tally weight (Function.update s.party id next)) := by
    intro weight old new base hold hnew
    have htally := congrArg UInt64.ofNat (tally_update weight s.party id next)
    rw [UInt64.ofNat_add, UInt64.ofNat_add] at htally
    rw [← UInt64.add_left_inj (UInt64.ofNat (weight (s.party id))), hnew, hold, UInt64.add_assoc,
      UInt64.add_assoc, htally]
  exact ⟨fun category => hcounter _ (h.requests category) (hrequests category),
    fun kind => hcounter _ (h.responses kind) (hresponses kind)⟩

/-- A step that counts a request. -/
theorem CountersAccount.request (h : CountersAccount cfg before s) {id : Id}
    {env : Surroundings} {socket : List Recv} {progress : Progress} {path : Bytes}
    (hparty : s.party id = .connection env socket .reading)
    (hcounted : countedPath cfg socket = some path)
    (hnext : ∀ resp includeBody, progress ≠ .answered resp includeBody)
    (hread : progress ≠ .reading) :
    CountersAccount cfg before
      ((s.recordRequest path).move id (.connection env socket progress)) := by
  refine h.move s.store (fun category => ?_) fun kind => ?_
  · rw [hparty, Metrics.requests_recordRequest]
    cases progress <;> simp_all [Party.countsRequest]
  · rw [hparty, Metrics.responses_recordRequest]
    cases progress <;> simp_all [Party.countsResponse]

/-- A step that counts nothing. -/
theorem CountersAccount.still (h : CountersAccount cfg before s) {id : Id} {next : Party}
    (store : StateStore)
    (hrequests : ∀ category, next.countsRequest cfg category =
      (s.party id).countsRequest cfg category)
    (hresponses : ∀ kind, next.countsResponse kind = (s.party id).countsResponse kind) :
    CountersAccount cfg before ((⟨store, s.metrics, s.party⟩ : State Id).move id next) :=
  h.move store (fun category => by rw [hrequests]) fun kind => by rw [hresponses]

/-- **One step** counts what it moves past the counters. -/
theorem account_transition {a : Action Id} (h : CountersAccount cfg before s)
    (htransition : Transition cfg s a t) : CountersAccount cfg before t := by
  cases htransition with
  | accept idle =>
      refine h.still s.store (fun _ => ?_) fun _ => ?_ <;> rw [idle] <;> rfl
  | lost reading received =>
      refine h.still s.store (fun _ => ?_) fun _ => ?_ <;> rw [reading]
      · simp [Party.countsRequest, countedPath, received]
      · rfl
  | cut reading received =>
      exact h.request reading (by rw [countedPath, received]) (fun _ _ => Progress.noConfusion)
        Progress.noConfusion
  | rejected reading received =>
      exact h.request reading (by rw [countedPath, received]) (fun _ _ => Progress.noConfusion)
        Progress.noConfusion
  | request reading received =>
      exact h.request reading (by rw [countedPath, received]) (fun _ _ => Progress.noConfusion)
        Progress.noConfusion
  | scrapeBegins routing scrape =>
      refine h.still s.store (fun _ => ?_) fun _ => ?_ <;> rw [routing] <;> rfl
  | routed routing plain =>
      refine h.still _ (fun _ => ?_) fun _ => ?_ <;> rw [routing] <;> rfl
  | scraped scraping =>
      refine h.still s.store (fun _ => ?_) fun _ => ?_ <;> rw [scraping] <;> rfl
  | answered responding =>
      refine h.move s.store (fun category => ?_) fun kind => ?_
      · rw [responding, Metrics.requests_recordResponse]
        rfl
      · rw [responding, Metrics.responses_recordResponse]
        exact UInt64.add_zero _
  | set name value idle =>
      refine h.still _ (fun _ => ?_) fun _ => ?_ <;> rw [idle] <;> rfl

omit [DecidableEq Id] in
/-- At first nobody is past them. -/
theorem account_start (store : StateStore) (before : Metrics) :
    CountersAccount cfg before (start store before : State Id) := by
  have hzero : ∀ {weight : Party → Nat}, weight .idle = 0 →
      tally weight (start store before : State Id).party = 0 :=
    fun h => tally_eq_zero fun _ => h
  constructor
  · intro category
    rw [hzero rfl]
    exact (UInt64.add_zero _).symm
  · intro kind
    rw [hzero rfl]
    exact (UInt64.add_zero _).symm

/-- The categories that a party was counted under, together. -/
def Party.requestsCounted (cfg : Config) (party : Party) : Nat :=
  party.countsRequest cfg .event + party.countsRequest cfg .metric +
    party.countsRequest cfg .health + party.countsRequest cfg .metrics +
    party.countsRequest cfg .other

def Party.responsesCounted (party : Party) : Nat :=
  party.countsResponse .success + party.countsResponse .clientError +
    party.countsResponse .serverError

variable {env : Surroundings} {socket : List Recv}

/-- A request that was read is counted once, if a path of it was read. -/
theorem requestsCounted_eq {progress : Progress} (hread : progress ≠ .reading) :
    (Party.connection env socket progress).requestsCounted cfg =
      if (countedPath cfg socket).isSome then 1 else 0 := by
  have honce : ∀ category : RequestCategory,
      (if some category = some .event then 1 else 0) +
        (if some category = some .metric then 1 else 0) +
        (if some category = some .health then 1 else 0) +
        (if some category = some .metrics then 1 else 0) +
        (if some category = some .other then 1 else 0) = 1 := by
    intro category
    cases category <;> rfl
  have hcounts : ∀ category, (Party.connection env socket progress).countsRequest cfg category =
      if (countedPath cfg socket).map categoryOf = some category then 1 else 0 := by
    intro category
    cases progress <;> first | rfl | exact absurd rfl hread
  simp only [Party.requestsCounted, hcounts]
  cases countedPath cfg socket with
  | none => rfl
  | some path => exact honce (categoryOf path)

/-- Every status that the server uses is of one class. -/
theorem responsesCounted_answered {resp : HttpResponse} (h : Answerable resp)
    (includeBody : Bool) :
    (Party.connection env socket (.answered resp includeBody)).responsesCounted = 1 := by
  have honce : ∀ status ∈ usedStatuses,
      (if classOf status = some .success then 1 else 0) +
        (if classOf status = some .clientError then 1 else 0) +
        (if classOf status = some .serverError then 1 else 0) = 1 := by
    decide
  exact honce _ h.status

/-- A connection that is not dropped is counted when it is read. -/
theorem countedPath_isSome (h : ∀ counted, receive cfg socket ≠ .dropped counted) :
    (countedPath cfg socket).isSome = true := by
  unfold countedPath
  split
  · exact absurd ‹_› (h _)
  · rfl
  · rfl

/-- A request that was counted was answered, or it is not answered yet. -/
theorem party_balance {party : Party} (h : party.Fits cfg) :
    party.requestsCounted cfg = party.responsesCounted + party.unanswered cfg := by
  cases party with
  | idle => rfl
  | stored name value => rfl
  | connection env socket progress =>
      cases progress with
      | reading => rfl
      | answered resp includeBody =>
          rw [requestsCounted_eq Progress.noConfusion, responsesCounted_answered h.1,
            if_pos (countedPath_isSome h.2)]
          rfl
      | routing | scraping | responding | dropped =>
          rw [requestsCounted_eq Progress.noConfusion]
          exact (Nat.zero_add _).symm

omit [DecidableEq Id] in
/-- The sum over the categories. -/
theorem CountersAccount.requestsSum (h : CountersAccount cfg before t) :
    t.metrics.requestsSum =
      before.requestsSum + UInt64.ofNat (tally (Party.requestsCounted cfg) t.party) := by
  unfold Party.requestsCounted
  simp only [Metrics.requestsSum, h.requests, tally_add, UInt64.ofNat_add]
  ac_rfl

omit [DecidableEq Id] in
theorem CountersAccount.responsesSum (h : CountersAccount cfg before t) :
    t.metrics.responsesSum =
      before.responsesSum + UInt64.ofNat (tally Party.responsesCounted t.party) := by
  unfold Party.responsesCounted
  simp only [Metrics.responsesSum, h.responses, tally_add, UInt64.ofNat_add]
  ac_rfl

/-- **The counters add up.**  At every moment of every run each counter holds one for each
party counted under it, and the requests exceed the responses by the unanswered. -/
theorem counters_account {store : StateStore} {schedule : List (Action Id)}
    (hrun : runFrom (step cfg) (start store before) schedule = some t) :
    CountersAccount cfg before t ∧
      t.metrics.requestsSum - before.requestsSum =
        t.metrics.responsesSum - before.responsesSum +
          UInt64.ofNat (tally (Party.unanswered cfg) t.party) := by
  have haccount : CountersAccount cfg before t :=
    invariant_of_run (fun _ _ _ h hstep => account_transition h (transition_of_step hstep))
      (account_start store before) hrun
  obtain ⟨q, -, hseen⟩ := seen_of_run (seen_start store before) hrun
  have hbalance : tally (Party.requestsCounted cfg) t.party =
      tally Party.responsesCounted t.party + tally (Party.unanswered cfg) t.party := by
    rw [← tally_add]
    exact tally_eq_of_phases fun id => party_balance (hseen.fits id)
  refine ⟨haccount, ?_⟩
  rw [haccount.requestsSum, haccount.responsesSum, hbalance, UInt64.ofNat_add,
    UInt64.add_comm, UInt64.add_sub_cancel, UInt64.add_comm before.responsesSum,
    UInt64.add_sub_cancel]

/-- The health check of the run is counted once. -/
theorem counters_crossedRun : ∃ t : State (Fin 3), CountersAccount {} {} t ∧
    t.metrics.requests .health = 1 ∧
    t.metrics.requestsSum - ({} : Metrics).requestsSum =
      t.metrics.responsesSum - ({} : Metrics).responsesSum +
        UInt64.ofNat (tally (Party.unanswered {}) t.party) := by
  obtain ⟨t, hrun, hhealth⟩ := exists_of_runFrom (step {}) (start SortedMap.empty {}) crossedRun
    (fun t => t.metrics.requests .health == 1) (by decide +kernel)
  obtain ⟨haccount, hbalance⟩ := counters_account hrun
  exact ⟨t, haccount, eq_of_beq hhealth, hbalance⟩

end ConcurrentServer

end Nshmqtt
