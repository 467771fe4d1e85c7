import Nshmqtt.AtomicPoints
import Nshmqtt.ProjectedRuns
import Nshmqtt.ResponseDelivery
import Nshmqtt.RouteEffects

/-!
# Many connections at once

The worker threads run `handleConnection` side by side, and the subscriber thread sets values
meanwhile.  A connection touches what it shares with the others at a few moments: it counts the
request, its route reads or changes the store under the store's lock, and it counts the response.
Between these moments the other parties have theirs.  Then all that is answered could have been
answered by handling one connection after the other, in an order that agrees with real time.

* `Transition` is what one step can do, `transition_of_step` says so of each step;
* `seen_transition` ties the connections to operations that take effect at one point;
* `linearizable` is the result on whole runs.

One request looks at the store twice: `GET /metrics` takes a snapshot and then the number of
entries, and after that it reads the counters one after the other.  Its answer is not of one
moment; here the counters are read at once, together with the number of entries, and no result
says which counters such an answer shows.
-/

namespace Nshmqtt

namespace ConcurrentServer

open ByteStrings TransitionRuns AtomicPoints

/-- How far `handleConnection` is. -/
inductive Progress
  | reading
  | routing (req : HttpRequest)
  /-- `GET /metrics` between its two looks at the store. -/
  | scraping (req : HttpRequest) (collisions : Nat)
  | responding (resp : HttpResponse) (includeBody : Bool)
  | answered (resp : HttpResponse) (includeBody : Bool)
  /-- Closed without an answer. -/
  | dropped

/-- A connection with what its client sends and what it meets, or one value that the message
handler sets. -/
inductive Party
  | idle
  | connection (env : Surroundings) (socket : List Recv) (progress : Progress)
  | stored (name : Bytes) (value : Double)

structure State (Id : Type*) where
  store : StateStore
  metrics : Metrics
  party : Id → Party

inductive Action (Id : Type*)
  | accept (id : Id) (env : Surroundings) (socket : List Recv)
  /-- Read the request and count it. -/
  | read (id : Id)
  /-- The route's access to the store. -/
  | route (id : Id)
  /-- The second access of `GET /metrics`, and the counters after it. -/
  | scrape (id : Id)
  | respond (id : Id)
  | set (id : Id) (name : Bytes) (value : Double)

/-- The request is answered with the service metrics. -/
def scrapes (cfg : Config) (req : HttpRequest) : Bool :=
  req.path == ascii "/metrics" && isRead req && cfg.prometheusHttp

/-- The store alone: the state file and the publish queue come after the access to it. -/
def alone (store : StateStore) : ServerState := ⟨store, ⟨none, none⟩, [], {}⟩

def includesBody (req : HttpRequest) : Bool := req.method != ascii "HEAD"

variable {Id : Type*} [DecidableEq Id]

def State.move (s : State Id) (id : Id) (next : Party) : State Id :=
  { s with party := Function.update s.party id next }

def State.recordRequest (s : State Id) (path : Bytes) : State Id :=
  { s with metrics := s.metrics.recordRequest path }

def State.recordResponse (s : State Id) (status : Nat) : State Id :=
  { s with metrics := s.metrics.recordResponse status }

def readStep (cfg : Config) (s : State Id) (id : Id) : Option (State Id) :=
  match s.party id with
  | .connection env socket .reading =>
      match receive cfg socket with
      | .dropped none => some (s.move id (.connection env socket .dropped))
      | .dropped (some path) =>
          some ((s.recordRequest path).move id (.connection env socket .dropped))
      | .rejected path resp isHead =>
          some ((s.recordRequest path).move id
            (.connection env socket (.responding resp (!isHead))))
      | .request req =>
          some ((s.recordRequest req.path).move id (.connection env socket (.routing req)))
  | _ => none

def routeStep (cfg : Config) (s : State Id) (id : Id) : Option (State Id) :=
  match s.party id with
  | .connection env socket (.routing req) =>
      if scrapes cfg req then
        some (s.move id (.connection env socket
          (.scraping req (normalizedState cfg s.store).collisions.length)))
      else
        let result := route cfg env (alone s.store) req
        some ({ s with store := result.2.store }.move id
          (.connection env socket (.responding result.1 (includesBody req))))
  | _ => none

/-- The answer to `GET /metrics`. -/
def scrapeResponse (cfg : Config) (env : Surroundings) (counters : Metrics)
    (entries collisions : Nat) : HttpResponse :=
  { format := .prometheus
    body := renderPrometheusServiceMetrics cfg.prometheusPrefix counters env.status
      cfg.mqttPoolSize entries collisions }

def scrapeStep (cfg : Config) (s : State Id) (id : Id) : Option (State Id) :=
  match s.party id with
  | .connection env socket (.scraping req collisions) =>
      some (s.move id (.connection env socket (.responding
        (scrapeResponse cfg env s.metrics s.store.size collisions) (includesBody req))))
  | _ => none

def respondStep (s : State Id) (id : Id) : Option (State Id) :=
  match s.party id with
  | .connection env socket (.responding resp includeBody) =>
      some ((s.recordResponse resp.status).move id
        (.connection env socket (.answered resp includeBody)))
  | _ => none

def step (cfg : Config) (s : State Id) : Action Id → Option (State Id)
  | .accept id env socket =>
      match s.party id with
      | .idle => some (s.move id (.connection env socket .reading))
      | _ => none
  | .read id => readStep cfg s id
  | .route id => routeStep cfg s id
  | .scrape id => scrapeStep cfg s id
  | .respond id => respondStep s id
  | .set id name value =>
      match s.party id with
      | .idle => some ({ s with store := s.store.set name value }.move id (.stored name value))
      | _ => none

def start (store : StateStore) (metrics : Metrics) : State Id := ⟨store, metrics, fun _ => .idle⟩

/-- What one step can do. -/
inductive Transition (cfg : Config) (s : State Id) : Action Id → State Id → Prop
  | accept {id : Id} {env : Surroundings} {socket : List Recv} (idle : s.party id = .idle) :
      Transition cfg s (.accept id env socket) (s.move id (.connection env socket .reading))
  | lost {id : Id} {env : Surroundings} {socket : List Recv}
      (reading : s.party id = .connection env socket .reading)
      (received : receive cfg socket = .dropped none) :
      Transition cfg s (.read id) (s.move id (.connection env socket .dropped))
  | cut {id : Id} {env : Surroundings} {socket : List Recv} {path : Bytes}
      (reading : s.party id = .connection env socket .reading)
      (received : receive cfg socket = .dropped (some path)) :
      Transition cfg s (.read id)
        ((s.recordRequest path).move id (.connection env socket .dropped))
  | rejected {id : Id} {env : Surroundings} {socket : List Recv} {path : Bytes}
      {resp : HttpResponse} {isHead : Bool}
      (reading : s.party id = .connection env socket .reading)
      (received : receive cfg socket = .rejected path resp isHead) :
      Transition cfg s (.read id)
        ((s.recordRequest path).move id (.connection env socket (.responding resp (!isHead))))
  | request {id : Id} {env : Surroundings} {socket : List Recv} {req : HttpRequest}
      (reading : s.party id = .connection env socket .reading)
      (received : receive cfg socket = .request req) :
      Transition cfg s (.read id)
        ((s.recordRequest req.path).move id (.connection env socket (.routing req)))
  | scrapeBegins {id : Id} {env : Surroundings} {socket : List Recv} {req : HttpRequest}
      (routing : s.party id = .connection env socket (.routing req))
      (scrape : scrapes cfg req = true) :
      Transition cfg s (.route id) (s.move id (.connection env socket
        (.scraping req (normalizedState cfg s.store).collisions.length)))
  | routed {id : Id} {env : Surroundings} {socket : List Recv} {req : HttpRequest}
      (routing : s.party id = .connection env socket (.routing req))
      (plain : scrapes cfg req = false) :
      Transition cfg s (.route id)
        ({ s with store := (route cfg env (alone s.store) req).2.store }.move id
          (.connection env socket
            (.responding (route cfg env (alone s.store) req).1 (includesBody req))))
  | scraped {id : Id} {env : Surroundings} {socket : List Recv} {req : HttpRequest}
      {collisions : Nat}
      (scraping : s.party id = .connection env socket (.scraping req collisions)) :
      Transition cfg s (.scrape id) (s.move id (.connection env socket (.responding
        (scrapeResponse cfg env s.metrics s.store.size collisions) (includesBody req))))
  | answered {id : Id} {env : Surroundings} {socket : List Recv} {resp : HttpResponse}
      {includeBody : Bool}
      (responding : s.party id = .connection env socket (.responding resp includeBody)) :
      Transition cfg s (.respond id) ((s.recordResponse resp.status).move id
        (.connection env socket (.answered resp includeBody)))
  | set {id : Id} (name : Bytes) (value : Double) (idle : s.party id = .idle) :
      Transition cfg s (.set id name value)
        ({ s with store := s.store.set name value }.move id (.stored name value))

variable {cfg : Config} {s t : State Id} {id : Id}

/-- The end of the read, for each way in which it can end. -/
theorem transition_of_readStep (h : readStep cfg s id = some t) :
    Transition cfg s (.read id) t := by
  unfold readStep at h
  split at h
  · rename_i env socket hparty
    split at h <;> rename_i hreceive <;> cases h
    · exact .lost hparty hreceive
    · exact .cut hparty hreceive
    · exact .rejected hparty hreceive
    · exact .request hparty hreceive
  · cases h

/-- The access to the store, and for a scrape the first of its two looks. -/
theorem transition_of_routeStep (h : routeStep cfg s id = some t) :
    Transition cfg s (.route id) t := by
  unfold routeStep at h
  split at h
  · rename_i env socket req hparty
    split_ifs at h with hscrapes <;> cases h
    · exact .scrapeBegins hparty hscrapes
    · exact .routed hparty (Bool.eq_false_iff.mpr hscrapes)
  · cases h

/-- **Every step** is one of the transitions. -/
theorem transition_of_step {a : Action Id} (h : step cfg s a = some t) : Transition cfg s a t := by
  cases a with
  | accept id env socket =>
      simp only [step] at h
      split at h <;> cases h
      exact .accept ‹_›
  | read id => exact transition_of_readStep h
  | route id => exact transition_of_routeStep h
  | scrape id =>
      simp only [step, scrapeStep] at h
      split at h <;> cases h
      exact .scraped ‹_›
  | respond id =>
      simp only [step, respondStep] at h
      split at h <;> cases h
      exact .answered ‹_›
  | set id name value =>
      simp only [step] at h
      split at h <;> cases h
      exact .set name value ‹_›

/-- What takes effect at one point: a whole connection, or one value set. -/
inductive Operation
  | connection (env : Surroundings) (socket : List Recv)
  | set (name : Bytes) (value : Double)

/-- The store after an operation that has the server for itself, and the bytes it answers. -/
def Operation.apply (cfg : Config) (store : StateStore) : Operation → StateStore × Option Bytes
  | .connection env socket =>
      let result := handleConnection cfg env (alone store) socket
      (result.2.store, result.1)
  | .set name value => (store.set name value, none)

/-- A connection that asks for the service metrics. -/
def isScrape (cfg : Config) (socket : List Recv) : Bool :=
  match receive cfg socket with
  | .request req => scrapes cfg req
  | _ => false

variable {env : Surroundings} {socket : List Recv} {req : HttpRequest} {store : StateStore}

/-- A connection scrapes when its request does. -/
theorem isScrape_request (h : receive cfg socket = .request req) :
    isScrape cfg socket = scrapes cfg req := by
  rw [isScrape, h]

/-- A connection without an answer leaves the store as it is. -/
theorem apply_dropped {counted : Option Bytes} (h : receive cfg socket = .dropped counted) :
    Operation.apply cfg store (.connection env socket) = (store, none) := by
  simp only [Operation.apply, handleConnection, h]
  cases counted <;> rfl

theorem apply_rejected {path : Bytes} {resp : HttpResponse} {isHead : Bool}
    (h : receive cfg socket = .rejected path resp isHead) :
    Operation.apply cfg store (.connection env socket) =
      (store, some (buildHttpResponse resp (!isHead))) := by
  simp only [Operation.apply, handleConnection, h]
  rfl

section

variable {first second : ServerState} (hstore : first.store = second.store)
include hstore

/-- The answer to a write does not depend on what is behind the store, nor does the new store. -/
theorem handleMetricWrite_congr (name : Bytes) (value : Double) :
    (handleMetricWrite cfg env first name value).1 =
        (handleMetricWrite cfg env second name value).1 ∧
      (handleMetricWrite cfg env first name value).2.store =
        (handleMetricWrite cfg env second name value).2.store := by
  simp only [handleMetricWrite, saveState_eq, hstore, ServerState.publish, and_self]

theorem handleMetricDelete_congr (name : Bytes) :
    (handleMetricDelete cfg env first name).1 = (handleMetricDelete cfg env second name).1 ∧
      (handleMetricDelete cfg env first name).2.store =
        (handleMetricDelete cfg env second name).2.store := by
  simp only [handleMetricDelete, saveState_eq, hstore]
  split_ifs
  · exact ⟨rfl, hstore⟩
  · exact ⟨rfl, rfl⟩

theorem handleMetric_congr :
    (handleMetric cfg env first req).1 = (handleMetric cfg env second req).1 ∧
      (handleMetric cfg env first req).2.store = (handleMetric cfg env second req).2.store := by
  unfold handleMetric
  simp only
  split
  · exact ⟨rfl, hstore⟩
  split
  · exact handleMetricDelete_congr hstore _
  split
  · cases putValue req with
    | none => exact ⟨rfl, hstore⟩
    | some value => exact handleMetricWrite_congr hstore _ value
  split
  · cases findQueryParam req (ascii "value") with
    | none => exact ⟨rfl, hstore⟩
    | some text =>
        simp only
        cases parseDouble text with
        | none => exact ⟨rfl, hstore⟩
        | some value => exact handleMetricWrite_congr hstore _ value
  · exact ⟨rfl, hstore⟩

/-- Apart from the service metrics, a route answers by the store alone and changes it by
itself alone. -/
theorem route_congr (hplain : scrapes cfg req = false) :
    (route cfg env first req).1 = (route cfg env second req).1 ∧
      (route cfg env first req).2.store = (route cfg env second req).2.store := by
  unfold route
  simp only
  split_ifs with hdenied hevent hmetric hpath hread hoff hservice hhealth hget
  · exact ⟨rfl, hstore⟩
  · unfold handleEvent
    cases eventCall cfg env req <;> exact ⟨rfl, hstore⟩
  · exact handleMetric_congr hstore
  · exact ⟨rfl, hstore⟩
  · exact ⟨rfl, hstore⟩
  · -- the service metrics
    simp_all [scrapes]
  · exact ⟨by rw [hstore], hstore⟩
  · exact ⟨rfl, hstore⟩
  · exact ⟨by simp only [healthResponse, hstore], hstore⟩
  · exact ⟨rfl, hstore⟩

end

/-- A request that is no scrape is one access to the store. -/
theorem apply_request (h : receive cfg socket = .request req)
    (hplain : scrapes cfg req = false) :
    Operation.apply cfg store (.connection env socket) =
      ((route cfg env (alone store) req).2.store,
        some (buildHttpResponse (route cfg env (alone store) req).1 (includesBody req))) := by
  have hstore : ((alone store).recordRequest req.path).store = (alone store).store := rfl
  have hcongr := @route_congr cfg env req _ _ hstore hplain
  simp only [Operation.apply, handleConnection, h]
  rw [← hcongr.1, ← hcongr.2]
  rfl

/-- What `handleConnection` knows at each stage. -/
def Progress.Fits (cfg : Config) (socket : List Recv) : Progress → Prop
  | .routing req => receive cfg socket = .request req
  | .scraping req _ => receive cfg socket = .request req ∧ scrapes cfg req = true
  | .responding resp _ | .answered resp _ =>
      Answerable resp ∧ ∀ counted, receive cfg socket ≠ .dropped counted
  | .dropped => ∃ counted, receive cfg socket = .dropped counted
  | .reading => True

def Party.Fits (cfg : Config) : Party → Prop
  | .connection _ socket progress => progress.Fits cfg socket
  | _ => True

/-- A stage of a connection as a phase of its operation. -/
def Progress.seen (op : Operation) : Progress → Phase Operation (Option Bytes)
  | .reading | .routing _ | .scraping _ _ => .invoked op
  | .responding resp includeBody => .acted op (some (buildHttpResponse resp includeBody))
  | .answered resp includeBody => .returned op (some (buildHttpResponse resp includeBody))
  | .dropped => .returned op none

/-- The service metrics are no operation. -/
def Party.seen (cfg : Config) : Party → Phase Operation (Option Bytes)
  | .idle => .idle
  | .stored name value => .returned (.set name value) none
  | .connection env socket progress =>
      if isScrape cfg socket then .idle else progress.seen (.connection env socket)

/-- The steps of the operations that a step is seen as. -/
def see (cfg : Config) (s : State Id) : Action Id → List (AtomicPoints.Action Id Operation)
  | .accept id env socket =>
      if isScrape cfg socket then [] else [.invoke id (.connection env socket)]
  | .read id =>
      match s.party id with
      | .connection _ socket _ =>
          match receive cfg socket with
          | .dropped _ => [.act id, .finish id]
          | .rejected _ _ _ => [.act id]
          | .request _ => []
      | _ => []
  | .route id =>
      match s.party id with
      | .connection _ _ (.routing req) => if scrapes cfg req then [] else [.act id]
      | _ => []
  | .scrape _ => []
  | .respond id =>
      match s.party id with
      | .connection _ socket _ => if isScrape cfg socket then [] else [.finish id]
      | _ => []
  | .set id name value => [.invoke id (.set name value), .act id, .finish id]

/-- The operations are those of the parties, on the same store. -/
structure Seen (cfg : Config) (s : State Id)
    (p : AtomicPoints.State StateStore Operation (Option Bytes) Id) : Prop where
  fits : ∀ id, (s.party id).Fits cfg
  shared : p.shared = s.store
  phase : ∀ id, p.phase id = (s.party id).seen cfg

variable {p : AtomicPoints.State StateStore Operation (Option Bytes) Id}

/-- A move that fits leaves all parties fitting. -/
theorem fits_move (h : ∀ id, (s.party id).Fits cfg) {next : Party} (hnext : next.Fits cfg)
    (other : Id) : (Function.update s.party id next other).Fits cfg := by
  by_cases hother : other = id
  · rw [hother, Function.update_self]
    exact hnext
  · rw [Function.update_of_ne hother]
    exact h other

/-- Party `id` moves on, and its operation with it. -/
theorem Seen.move (h : Seen cfg s p) (next : Party) (hnext : next.Fits cfg)
    {phase : Phase Operation (Option Bytes)} (hphase : phase = next.seen cfg)
    {after : StateStore} (metrics : Metrics)
    {q : AtomicPoints.State StateStore Operation (Option Bytes) Id} (hq : q.phase = p.phase)
    (hafter : q.shared = after) :
    Seen cfg ((⟨after, metrics, s.party⟩ : State Id).move id next) (q.move id phase) where
  fits := fits_move h.fits hnext
  shared := hafter
  phase other := by
    simp only [State.move, AtomicPoints.State.move]
    by_cases hother : other = id
    · rw [hother, Function.update_self, Function.update_self, hphase]
    · rw [Function.update_of_ne hother, Function.update_of_ne hother, hq, h.phase]

/-- Party `id` moves on, but nothing is seen of it. -/
theorem Seen.still (h : Seen cfg s p) (next : Party) (hnext : next.Fits cfg)
    (hseen : next.seen cfg = (s.party id).seen cfg) (metrics : Metrics) :
    Seen cfg ((⟨s.store, metrics, s.party⟩ : State Id).move id next) p where
  fits := fits_move h.fits hnext
  shared := h.shared
  phase other := by
    rw [h.phase]
    simp only [State.move]
    by_cases hother : other = id
    · rw [hother, Function.update_self, hseen]
    · rw [Function.update_of_ne hother]

/-- A connection that does not scrape is seen as it is. -/
theorem seen_connection {progress : Progress} (hscrape : isScrape cfg socket = false) :
    (Party.connection env socket progress).seen cfg = progress.seen (.connection env socket) := by
  simp only [Party.seen, hscrape, Bool.false_eq_true, if_false]

theorem seen_scrape {progress : Progress} (hscrape : isScrape cfg socket = true) :
    (Party.connection env socket progress).seen cfg = .idle := by
  simp only [Party.seen, hscrape, if_true]

/-- Only requests can ask for the service metrics. -/
theorem not_isScrape_dropped {counted : Option Bytes}
    (h : receive cfg socket = .dropped counted) : isScrape cfg socket = false := by
  rw [isScrape, h]

/-- A rejected request has no path to scrape. -/
theorem not_isScrape_rejected {path : Bytes} {resp : HttpResponse} {isHead : Bool}
    (h : receive cfg socket = .rejected path resp isHead) : isScrape cfg socket = false := by
  rw [isScrape, h]

omit [DecidableEq Id] in
/-- The phase of an operation is that of its connection. -/
theorem phase_connection (h : Seen cfg s p) {progress : Progress}
    (hparty : s.party id = .connection env socket progress)
    (hplain : isScrape cfg socket = false) :
    p.phase id = progress.seen (.connection env socket) := by
  rw [h.phase, hparty, seen_connection hplain]

/-- A connection that is dropped takes effect and returns in one step. -/
theorem seen_dropped {counted : Option Bytes} (h : Seen cfg s p)
    (hparty : s.party id = .connection env socket .reading)
    (hreceive : receive cfg socket = .dropped counted) (metrics : Metrics) :
    ∃ q, runFrom (AtomicPoints.step (Operation.apply cfg)) p (see cfg s (.read id)) = some q ∧
      Seen cfg ((⟨s.store, metrics, s.party⟩ : State Id).move id
        (.connection env socket .dropped)) q := by
  have hplain := not_isScrape_dropped hreceive
  have hsee : see cfg s (.read id) = [.act id, .finish id] := by
    simp only [see, hparty, hreceive]
  rw [hsee, run_act_finish (phase_connection h hparty hplain) (apply_dropped hreceive), h.shared]
  exact ⟨_, rfl, h.move (.connection env socket .dropped) ⟨counted, hreceive⟩
    (seen_connection hplain).symm metrics rfl rfl⟩

/-- A connection whose answer is settled takes effect. -/
theorem seen_act {a : Action Id} (h : Seen cfg s p) {progress : Progress}
    (hparty : s.party id = .connection env socket progress)
    (hwaits : progress.seen (.connection env socket) = .invoked (.connection env socket))
    (hplain : isScrape cfg socket = false) (hsee : see cfg s a = [.act id])
    {resp : HttpResponse} {includeBody : Bool} {after : StateStore}
    (hfits : (Party.connection env socket (.responding resp includeBody)).Fits cfg)
    (happly : Operation.apply cfg s.store (.connection env socket) =
      (after, some (buildHttpResponse resp includeBody))) (metrics : Metrics) :
    ∃ q, runFrom (AtomicPoints.step (Operation.apply cfg)) p (see cfg s a) = some q ∧
      Seen cfg ((⟨after, metrics, s.party⟩ : State Id).move id
        (.connection env socket (.responding resp includeBody))) q := by
  have hphase := (phase_connection h hparty hplain).trans hwaits
  rw [← h.shared] at happly
  rw [hsee]
  exact ⟨_, runFrom_cons.mpr ⟨_, step_act hphase happly, rfl⟩,
    h.move (.connection env socket (.responding resp includeBody)) hfits
      (seen_connection hplain).symm metrics rfl rfl⟩

/-- **One step of the server is seen as steps of operations that take effect at one point.** -/
theorem seen_transition {a : Action Id} (h : Seen cfg s p) (htransition : Transition cfg s a t) :
    ∃ q, runFrom (AtomicPoints.step (Operation.apply cfg)) p (see cfg s a) = some q ∧
      Seen cfg t q := by
  have hfits := h.fits
  cases htransition with
  | @accept id env socket idle =>
      cases hscrape : isScrape cfg socket with
      | true =>
          refine ⟨p, by simp only [see, hscrape, if_true, runFrom_nil], ?_⟩
          refine h.still (.connection env socket .reading) trivial ?_ s.metrics
          rw [seen_scrape hscrape, idle]
          rfl
      | false =>
          have hphase : p.phase id = .idle := by
            rw [h.phase, idle]
            rfl
          have hsee : see cfg s (.accept id env socket) =
              [.invoke id (.connection env socket)] := by
            simp only [see, hscrape, Bool.false_eq_true, if_false]
          rw [hsee]
          exact ⟨_, runFrom_cons.mpr ⟨_, step_invoke hphase, rfl⟩,
            h.move (.connection env socket .reading) trivial (seen_connection hscrape).symm _ rfl
              h.shared⟩
  | lost reading received => exact seen_dropped h reading received s.metrics
  | cut reading received => exact seen_dropped h reading received _
  | @rejected id env socket path resp isHead reading received =>
      have hresp := receive_fits cfg socket
      rw [received] at hresp
      refine seen_act h reading rfl (not_isScrape_rejected received) ?_
        ⟨hresp.1, by simp [received]⟩ (apply_rejected received) _
      simp only [see, reading, received]
  | @request id env socket req reading received =>
      refine ⟨p, by simp only [see, reading, received, runFrom_nil],
        h.still (.connection env socket (.routing req)) received ?_ _⟩
      rw [reading]
      rfl
  | @scrapeBegins id env socket req routing scrape =>
      have hreceive : receive cfg socket = .request req := by
        have hid := hfits id
        rw [routing] at hid
        exact hid
      refine ⟨p, by simp only [see, routing, scrape, if_true, runFrom_nil],
        h.still (.connection env socket (.scraping req _)) ⟨hreceive, scrape⟩ ?_ _⟩
      rw [routing]
      rfl
  | @routed id env socket req routing plain =>
      have hreceive : receive cfg socket = .request req := by
        have hid := hfits id
        rw [routing] at hid
        exact hid
      refine seen_act h routing rfl ((isScrape_request hreceive).trans plain) ?_
        ⟨route_answerable, by simp [hreceive]⟩ (apply_request hreceive plain) _
      simp only [see, routing, plain, Bool.false_eq_true, if_false]
  | @scraped id env socket req collisions scraping =>
      have hid := hfits id
      rw [scraping] at hid
      have hscrape : isScrape cfg socket = true := (isScrape_request hid.1).trans hid.2
      refine ⟨p, by simp only [see, runFrom_nil],
        h.still (.connection env socket (.responding _ _))
          ⟨Answerable.ok rfl rfl, by simp [hid.1]⟩ ?_ _⟩
      rw [scraping, seen_scrape hscrape, seen_scrape hscrape]
  | @answered id env socket resp includeBody responding =>
      have hid := hfits id
      rw [responding] at hid
      cases hscrape : isScrape cfg socket with
      | true =>
          refine ⟨p, by simp only [see, responding, hscrape, if_true, runFrom_nil],
            h.still (.connection env socket (.answered resp includeBody)) hid ?_ _⟩
          rw [responding, seen_scrape hscrape, seen_scrape hscrape]
      | false =>
          have hsee : see cfg s (.respond id) = [.finish id] := by
            simp only [see, responding, hscrape, Bool.false_eq_true, if_false]
          rw [hsee]
          exact ⟨_, runFrom_cons.mpr
              ⟨_, step_finish (phase_connection h responding hscrape), rfl⟩,
            h.move (.connection env socket (.answered resp includeBody)) hid
              (seen_connection hscrape).symm _ rfl h.shared⟩
  | @set id name value idle =>
      have hphase : p.phase id = .idle := by
        rw [h.phase, idle]
        rfl
      have happly : Operation.apply cfg p.shared (.set name value) =
          (s.store.set name value, none) := by
        rw [h.shared]
        rfl
      rw [see, run_at_once hphase happly]
      exact ⟨_, rfl, h.move (.stored name value) trivial rfl _ rfl rfl⟩

def Party.operation : Party → Option Operation
  | .idle => none
  | .connection env socket _ => some (.connection env socket)
  | .stored name value => some (.set name value)

/-- The operation that a party has completed, with its answer; the service metrics are none. -/
def Party.result (cfg : Config) : Party → Option (Operation × Option Bytes)
  | .connection env socket (.answered resp includeBody) =>
      if isScrape cfg socket then none
      else some (.connection env socket, some (buildHttpResponse resp includeBody))
  | .connection env socket .dropped => some (.connection env socket, none)
  | .stored name value => some (.set name value, none)
  | _ => none

/-- All that was answered on a run could have been answered one after the other in `order`. -/
structure Linearized (cfg : Config) (initial : StateStore) (before : Metrics)
    (schedule : List (Action Id)) (t : State Id)
    (order : List (Point Id Operation (Option Bytes))) : Prop where
  once : (order.map Point.id).Nodup
  explains : execute (Operation.apply cfg) initial (order.map Point.op) =
    (order.map Point.res, t.store)
  asked : ∀ point ∈ order, (t.party point.id).operation = some point.op
  answered : ∀ id op res, (t.party id).result cfg = some (op, res) →
    (⟨id, op, res⟩ : Point Id Operation (Option Bytes)) ∈ order
  /-- Who was done when another had not begun comes before it. -/
  realTime : ∀ first rest s a b, schedule = first ++ rest →
    runFrom (step cfg) (start initial before) first = some s →
    ((s.party a).result cfg).isSome = true → s.party b = .idle → Before order a b

/-- What took effect is the operation of the party. -/
theorem operation_of_effect {party : Party} {op : Operation} {res : Option Bytes}
    (h : (party.seen cfg).effect = some (op, res)) : party.operation = some op := by
  cases party with
  | idle => cases h
  | stored name value =>
      cases h
      rfl
  | connection env socket progress =>
      cases hscrape : isScrape cfg socket with
      | true =>
          rw [seen_scrape hscrape] at h
          cases h
      | false =>
          rw [seen_connection hscrape] at h
          cases progress <;> cases h <;> rfl

/-- A party that has a result was seen to take effect. -/
theorem seen_of_result {party : Party} {op : Operation} {res : Option Bytes}
    (hfits : party.Fits cfg) (h : party.result cfg = some (op, res)) :
    (party.seen cfg).effect = some (op, res) := by
  cases party with
  | idle => cases h
  | stored name value => exact h
  | connection env socket progress =>
      cases progress with
      | answered resp includeBody =>
          cases hscrape : isScrape cfg socket with
          | true =>
              simp only [Party.result, hscrape, if_true] at h
              cases h
          | false =>
              simp only [Party.result, hscrape, Bool.false_eq_true, if_false] at h
              rw [seen_connection hscrape]
              exact h
      | dropped =>
          obtain ⟨counted, hreceive⟩ := hfits
          rw [seen_connection (not_isScrape_dropped hreceive)]
          exact h
      | reading | routing | scraping | responding => cases h

omit [DecidableEq Id] in
theorem seen_start (initial : StateStore) (before : Metrics) :
    Seen cfg (start initial before : State Id) (AtomicPoints.start initial) :=
  ⟨fun _ => trivial, rfl, fun _ => rfl⟩

/-- **One run of the server is seen as a run of operations.** -/
theorem seen_of_run {schedule : List (Action Id)} (h : Seen cfg s p)
    (hrun : runFrom (step cfg) s schedule = some t) :
    ∃ q, runFrom (AtomicPoints.step (Operation.apply cfg)) p
        (seenFrom (step cfg) (see cfg) s schedule) = some q ∧ Seen cfg t q :=
  runFrom_seen (fun _ _ _ _ h hstep => seen_transition h (transition_of_step hstep)) h hrun

/-- **Connections handled at once are handled as if one after the other.** -/
theorem linearizable {initial : StateStore} {before : Metrics} {schedule : List (Action Id)}
    (hrun : runFrom (step cfg) (start initial before) schedule = some t) :
    ∃ order, Linearized cfg initial before schedule t order := by
  obtain ⟨q, hq, hlast⟩ := seen_of_run (seen_start initial before) hrun
  have hexplained := point_spec hq
  refine ⟨q.order, hexplained.nodup, ?_, fun point hpoint => ?_, fun id op res hres => ?_, ?_⟩
  · rw [← hlast.shared]
    exact hexplained.results
  · have heffect : (q.phase point.id).effect = some (point.op, point.res) :=
      (hexplained.effect _ _ _).mpr hpoint
    rw [hlast.phase] at heffect
    exact operation_of_effect heffect
  · refine (hexplained.effect id op res).mp ?_
    rw [hlast.phase]
    exact seen_of_result (hlast.fits id) hres
  · intro first rest s a b hschedule hfirst ha hb
    rw [hschedule] at hrun hq
    obtain ⟨u, hu, hrest⟩ := runFrom_append.mp hrun
    cases Option.some.inj (hfirst.symm.trans hu)
    obtain ⟨r, hr, hmiddle⟩ := seen_of_run (seen_start initial before) hfirst
    rw [seenFrom_append hfirst] at hq
    obtain ⟨r', hr', hback⟩ := runFrom_append.mp hq
    cases Option.some.inj (hr.symm.trans hr')
    refine before_of_effect hr hback ?_ ?_
    · obtain ⟨result, hresult⟩ := Option.isSome_iff_exists.mp ha
      rw [hmiddle.phase, seen_of_result (hmiddle.fits a) hresult]
      rfl
    · rw [hmiddle.phase, hb]
      rfl

/-- A value is set and deleted again while a health check is under way. -/
def crossedRun : List (Action (Fin 3)) :=
  [.accept 1 quietSurroundings [.data (ascii "GET /health HTTP/1.1\r\n\r\n")], .read 1,
    .set 2 (ascii "a") (Binary64.ofInt 5),
    .accept 0 quietSurroundings [.data (ascii "DELETE /metric/a HTTP/1.1\r\n\r\n")], .read 0,
    .route 0, .route 1, .respond 1, .respond 0]

/-- An order for this run, in which the deletion comes last and the store ends empty. -/
theorem linearizable_crossedRun : ∃ (t : State (Fin 3)) (order : _),
    Linearized {} SortedMap.empty {} crossedRun t order ∧ t.store.lookup (ascii "a") = none := by
  obtain ⟨t, hrun, hstore⟩ := exists_of_runFrom (step {}) (start SortedMap.empty {}) crossedRun
    (fun t => (t.store.lookup (ascii "a")).isNone) (by decide +kernel)
  obtain ⟨order, horder⟩ := linearizable hrun
  exact ⟨t, order, horder, Option.isNone_iff_eq_none.mp hstore⟩

end ConcurrentServer

end Nshmqtt
