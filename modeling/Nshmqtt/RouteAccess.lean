import Nshmqtt.RouteOutcomes

/-!
# Who may see the store

With tokens configured, a request without one of them reaches no handler that
reads or writes callers' data.  What the open routes answer depends on the
store only through two counts: its size and the number of colliding names.  So
two stores with the same counts cannot be told apart, and nothing is changed.
-/

namespace Nshmqtt

open ByteStrings

/-- The two counts of the store that the open routes show, and the counters. -/
structure SameCounts (cfg : Config) (s t : ServerState) : Prop where
  size : s.store.size = t.store.size
  collisions : (normalizedState cfg s.store).collisions.length =
    (normalizedState cfg t.store).collisions.length
  metrics : s.metrics = t.metrics

variable {cfg : Config} {env : Surroundings} {req : HttpRequest} {s t : ServerState}

/-- A token opens the routes when it is one of the configured ones. -/
theorem isAuthorized_iff (htokens : cfg.httpAuthTokens ≠ []) :
    isAuthorized cfg req = true ↔ req.authToken ∈ cfg.httpAuthTokens := by
  unfold isAuthorized
  rw [Bool.or_eq_true, List.isEmpty_iff, List.any_eq_true]
  constructor
  · intro h
    rcases h with hnil | ⟨token, hmem, hequal⟩
    · exact absurd hnil htokens
    · rw [constantTimeEquals_iff] at hequal
      exact hequal ▸ hmem
  · intro h
    exact Or.inr ⟨req.authToken, h, (constantTimeEquals_iff _ _).mpr rfl⟩

/-- The service metrics show the store only by its counts. -/
theorem serviceBody_congr (h : SameCounts cfg s t) :
    serviceBody cfg env s = serviceBody cfg env t := by
  unfold serviceBody
  rw [h.size, h.collisions, h.metrics]

/-- A health check shows the counts alone. -/
theorem healthResponse_congr (h : SameCounts cfg s t) :
    healthResponse cfg env s req = healthResponse cfg env t req := by
  unfold healthResponse
  rw [h.size]

/-- What an unauthorized request gets: the refusal, or the answer of an open
route; in no case is the state changed. -/
theorem route_unauthorized (hdenied : isAuthorized cfg req = false) :
    (route cfg env s req).2 = s ∧
      (SameCounts cfg s t → (route cfg env s req).1 = (route cfg env t req).1) := by
  unfold route
  simp only [hdenied, Bool.not_false, Bool.and_true]
  by_cases hauth : needsAuth req.path = true
  · simp only [hauth, if_true, true_and]
    intro _
    trivial
  · -- neither an event nor a metric path, nor `/metrics-state`
    have hopen := hauth
    unfold needsAuth at hopen
    rw [Bool.or_eq_true, Bool.or_eq_true, not_or, not_or, beq_iff_eq] at hopen
    obtain ⟨⟨hevent, hmetric⟩, hstate⟩ := hopen
    simp only [hauth, hevent, hmetric, hstate, if_false, or_false, Bool.false_eq_true]
    split_ifs with hservice hread hprometheus hhealth hread
    · exact ⟨rfl, fun _ => rfl⟩
    · exact ⟨rfl, fun _ => rfl⟩
    · refine ⟨rfl, fun h => ?_⟩
      rw [serviceBody_congr h]
    · exact ⟨rfl, fun _ => rfl⟩
    · exact ⟨rfl, healthResponse_congr⟩
    · exact ⟨rfl, fun _ => rfl⟩

/-- No outcome of a publish call is answered with 401. -/
theorem status_eventOutcomeResponse (call : PublishCall) (outcome : PublishOutcome) :
    (eventOutcomeResponse call outcome).status ≠ 401 := by
  cases outcome <;> simp [eventOutcomeResponse]

theorem status_healthResponse : (healthResponse cfg env s req).status ≠ 401 := by
  unfold healthResponse
  split_ifs <;> simp

/-- An authorized request is never refused for its token. -/
theorem status_route (hauthorized : isAuthorized cfg req = true) :
    (route cfg env s req).1.status ≠ 401 := by
  have houtcome : RouteOutcome cfg env s req (route cfg env s req) := route_outcome
  generalize route cfg env s req = result at houtcome ⊢
  cases houtcome with
  | unauthorized denied =>
      rw [hauthorized] at denied
      cases denied
  | refused refusal => rcases refusal.status with h | h | h <;> simp [h]
  | event asked => exact status_eventOutcomeResponse _ _
  | write authorized name asked => simp [handleMetricWrite]
  | delete name method existed => simp [handleMetricDelete, existed]
  | metrics body path => simp
  | health path => exact status_healthResponse

/-- **Access.**  With tokens configured, a request that carries none of them
gets the same response from any two stores with the same counts, and changes
nothing; one that carries a token is never answered 401; and the comparison
behind this is equality of byte strings. -/
theorem route_access (htokens : cfg.httpAuthTokens ≠ []) (env : Surroundings) :
    (∀ (req : HttpRequest) (s t : ServerState),
      (∀ token ∈ cfg.httpAuthTokens, req.authToken ≠ token) → SameCounts cfg s t →
        (route cfg env s req).1 = (route cfg env t req).1 ∧
          (route cfg env s req).2 = s ∧ (route cfg env t req).2 = t) ∧
    (∀ (req : HttpRequest) (s : ServerState), req.authToken ∈ cfg.httpAuthTokens →
      (route cfg env s req).1.status ≠ 401) ∧
    (∀ a b : Bytes, constantTimeEquals a b = true ↔ a = b) := by
  refine ⟨?_, ?_, constantTimeEquals_iff⟩
  · intro req s t hnone hcounts
    have hdenied : isAuthorized cfg req = false := by
      by_contra hauthorized
      rw [Bool.not_eq_false, isAuthorized_iff htokens] at hauthorized
      exact hnone _ hauthorized rfl
    exact ⟨(route_unauthorized hdenied).2 hcounts, (route_unauthorized (t := t) hdenied).1,
      (route_unauthorized (t := t) hdenied).1⟩
  · intro req s htoken
    exact status_route ((isAuthorized_iff htokens).mpr htoken)

/-- A configuration with one token. -/
def tokenConfig : Config := { httpAuthTokens := [ascii "secret"] }

/-- A broker that accepts everything and a disk without failures. -/
def quietSurroundings : Surroundings where
  status := ⟨Binary64.ofInt 0, false, 0, 0, 0⟩
  publishOutcome _ := .ok
  saveIo := .succeeds
  placeholders _ _ := []

/-- A server whose store has one entry. -/
def oneEntry (name : Bytes) (value : Int) : ServerState :=
  ⟨StateStore.set SortedMap.empty name (Binary64.ofInt value), ⟨none, none⟩, [], {}⟩

/-- A scrape of one of the two metrics routes. -/
def scrape (path token : Bytes) : HttpRequest :=
  { method := ascii "GET", path := path, authToken := token }

/-- Without the token the scrape of `/metrics` does not tell a store with
`a = 1` from one with `b = 2`; with it `/metrics-state` is open. -/
theorem route_access_scrape :
    (route tokenConfig quietSurroundings (oneEntry (ascii "a") 1) (scrape (ascii "/metrics") [])).1 =
      (route tokenConfig quietSurroundings (oneEntry (ascii "b") 2)
        (scrape (ascii "/metrics") [])).1 ∧
    (route tokenConfig quietSurroundings (oneEntry (ascii "a") 1)
      (scrape (ascii "/metrics-state") (ascii "secret"))).1.status ≠ 401 := by
  have htokens : tokenConfig.httpAuthTokens ≠ [] := by decide
  obtain ⟨hdenied, hopen, -⟩ := route_access htokens quietSurroundings
  have hcounts : SameCounts tokenConfig (oneEntry (ascii "a") 1) (oneEntry (ascii "b") 2) :=
    ⟨by decide +kernel, by decide +kernel, rfl⟩
  exact ⟨(hdenied (scrape (ascii "/metrics") []) _ _ (by decide) hcounts).1,
    hopen _ _ (by decide)⟩

end Nshmqtt
