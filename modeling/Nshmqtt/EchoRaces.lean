import Nshmqtt.MessageHandler
import Nshmqtt.Server
import Nshmqtt.TransitionRuns

/-!
# Requests and their echoes

With a subscription that covers its own metrics, the process receives every
retained publish it made.  The echo waits in the incoming queue while further
requests change the store, and the handler then stores its value as if it were
new; an empty payload, which a DELETE publishes, is ignored.

So an echo that is handled after the name was deleted brings the name back.  If
no DELETE is processed while such an echo of its name is queued, the echoes
never change which names the store has.
-/

namespace Nshmqtt

open ByteStrings TransitionRuns

namespace EchoRaces

inductive Request
  | put (name : Bytes) (value : Double)
  | delete (name : Bytes)

def Request.name : Request → Bytes
  | .put name _ => name
  | .delete name => name

/-- The store of one client's requests and the queue of arrived echoes; `pending`
is the publish of a request that has updated the store and is not answered yet,
`reference` the store that the requests alone have produced. -/
structure State where
  store : StateStore
  pending : Option PublishCall
  incoming : List IncomingMessage
  reference : StateStore

inductive Action
  /-- A request is taken up and updates the store. -/
  | request (r : Request)
  /-- Its publish is acknowledged and echoed, and it is answered. -/
  | publish
  /-- The subscribe worker handles the oldest echo. -/
  | handle

/-- What a request does to the store. -/
def requestStore (store : StateStore) : Request → StateStore
  | .put name value => store.set name value
  | .delete name => (store.remove name).1

/-- The publish a request makes; the DELETE of an unknown name makes none. -/
def requestCall (cfg : Config) (store : StateStore) : Request → Option PublishCall
  | .put name value => some (metricWriteCall cfg name value)
  | .delete name => if (store.remove name).2 then some (metricDeleteCall cfg name) else none

/-- A publish as it comes back on the subscription. -/
def echo (call : PublishCall) : IncomingMessage := ⟨call.topic, call.payload, false⟩

def step (cfg : Config) (s : State) : Action → Option State
  | .request r =>
      match s.pending with
      | some _ => none
      | none => some
          { s with
            store := requestStore s.store r
            pending := requestCall cfg s.store r
            reference := requestStore s.reference r }
  | .publish =>
      match s.pending with
      | none => none
      | some call => some { s with pending := none, incoming := s.incoming ++ [echo call] }
  | .handle =>
      match s.incoming with
      | [] => none
      | msg :: rest =>
          some { s with store := (messageHandler cfg s.store msg).store, incoming := rest }

/-- The requests of a schedule in order. -/
def requests (schedule : List Action) : List Request :=
  schedule.filterMap fun
    | .request r => some r
    | _ => none

def start (store : StateStore) : State := ⟨store, none, [], store⟩

/-- The reference store is that of the requests alone. -/
theorem reference_run {cfg : Config} {s t : State} {schedule : List Action}
    (hrun : runFrom (step cfg) s schedule = some t) :
    t.reference = (requests schedule).foldl requestStore s.reference := by
  induction schedule generalizing s with
  | nil =>
      rw [runFrom_nil, Option.some.injEq] at hrun
      rw [hrun]
      rfl
  | cons a rest ih =>
      obtain ⟨u, hstep, hrest⟩ := runFrom_cons.mp hrun
      rw [ih hrest]
      cases a with
      | request r =>
          simp only [step] at hstep
          split at hstep
          · cases hstep
          · rw [Option.some.injEq] at hstep
            subst hstep
            rfl
      | publish =>
          simp only [step] at hstep
          split at hstep
          · cases hstep
          · rw [Option.some.injEq] at hstep
            subst hstep
            rfl
      | handle =>
          simp only [step] at hstep
          split at hstep
          · cases hstep
          · rw [Option.some.injEq] at hstep
            subst hstep
            rfl

/-- A request changes the names of two stores in the same way. -/
theorem mem_keys_requestStore {store store' : StateStore}
    (h : ∀ key, key ∈ store.keys ↔ key ∈ store'.keys) (r : Request) (key : Bytes) :
    key ∈ (requestStore store r).keys ↔ key ∈ (requestStore store' r).keys := by
  cases r with
  | put name value => simp only [requestStore, StateStore.mem_keys_set, h]
  | delete name => simp only [requestStore, StateStore.mem_keys_remove, h]

/-- Requests for other names leave a name alone. -/
theorem mem_keys_foldl_of_ne {name : Bytes} {rs : List Request} (h : ∀ r ∈ rs, r.name ≠ name)
    (store : StateStore) :
    name ∈ (rs.foldl requestStore store).keys ↔ name ∈ store.keys := by
  induction rs generalizing store with
  | nil => rfl
  | cons r rest ih =>
      have hne := h r List.mem_cons_self
      rw [List.foldl_cons, ih fun r' hr' => h r' (List.mem_cons_of_mem _ hr')]
      cases r with
      | put other value =>
          rw [requestStore, StateStore.mem_keys_set]
          exact or_iff_right (Ne.symm hne)
      | delete other =>
          rw [requestStore, StateStore.mem_keys_remove]
          exact and_iff_right (Ne.symm hne)

/-- The condition on a step: a DELETE is not processed while an echo that the
handler would store under its name is queued. -/
def NoQueuedEcho (cfg : Config) (s : State) : Action → Prop
  | .request (.delete name) => ∀ msg ∈ s.incoming, name ∉ messageNames cfg msg
  | _ => True

instance (cfg : Config) (s : State) : ∀ a, Decidable (NoQueuedEcho cfg s a)
  | .request (.delete name) =>
      inferInstanceAs (Decidable (∀ msg ∈ s.incoming, name ∉ messageNames cfg msg))
  | .request (.put _ _) => .isTrue trivial
  | .publish => .isTrue trivial
  | .handle => .isTrue trivial

/-- The store has the names of the reference, and no echo, queued or still to
come, would add another one. -/
structure Inv (cfg : Config) (s : State) : Prop where
  names : ∀ name, name ∈ s.store.keys ↔ name ∈ s.reference.keys
  queued : ∀ msg ∈ s.incoming, ∀ name ∈ messageNames cfg msg, name ∈ s.store.keys
  pending : ∀ call ∈ s.pending, ∀ name ∈ messageNames cfg (echo call), name ∈ s.store.keys

variable {cfg : Config} {s t : State}

/-- The name of a value that is set is in the store before its echo is. -/
theorem inv_put {name : Bytes} {value : Double} (hs : Inv cfg s)
    (h : step cfg s (.request (.put name value)) = some t) : Inv cfg t := by
  simp only [step] at h
  split at h
  · cases h
  · rw [Option.some.injEq] at h
    subst h
    refine ⟨mem_keys_requestStore hs.names _, ?_, ?_⟩
    · intro msg hmsg key hkey
      exact (StateStore.mem_keys_set _ _ _ _).mpr (Or.inr (hs.queued msg hmsg key hkey))
    · intro call hcall key hkey
      rw [requestCall, Option.mem_some_iff] at hcall
      subst hcall
      have htopic := messageNames_formatDouble cfg name value false key hkey
      exact (StateStore.mem_keys_set _ _ _ _).mpr (Or.inl htopic)

/-- A deletion meets no queued echo, by the guard. -/
theorem inv_delete {name : Bytes} (hs : Inv cfg s)
    (hok : NoQueuedEcho cfg s (.request (.delete name)))
    (h : step cfg s (.request (.delete name)) = some t) : Inv cfg t := by
  simp only [step] at h
  split at h
  · cases h
  · rw [Option.some.injEq] at h
    subst h
    refine ⟨mem_keys_requestStore hs.names _, ?_, ?_⟩
    · -- the queued echoes are of other names
      intro msg hmsg key hkey
      have hne : key ≠ name := by
        intro heq
        exact hok msg hmsg (heq ▸ hkey)
      exact (StateStore.mem_keys_remove _ _ _).mpr ⟨hne, hs.queued msg hmsg key hkey⟩
    · -- the echo of the DELETE itself stores nothing
      intro call hcall key hkey
      simp only [requestCall, Option.mem_def] at hcall
      split_ifs at hcall
      rw [Option.some.injEq] at hcall
      subst hcall
      have hnames := messageNames_empty cfg name false
      rw [echo, metricDeleteCall, hnames] at hkey
      cases hkey

/-- A published value moves its echo into the queue. -/
theorem inv_publish (hs : Inv cfg s) (h : step cfg s .publish = some t) : Inv cfg t := by
  simp only [step] at h
  split at h
  · cases h
  · rename_i call hpending
    rw [Option.some.injEq] at h
    subst h
    refine ⟨hs.names, ?_, fun _ hcall => absurd hcall (Option.not_mem_none _)⟩
    intro msg hmsg
    rcases List.mem_append.mp hmsg with hold | hnew
    · exact hs.queued msg hold
    · rw [List.mem_singleton.mp hnew]
      exact hs.pending call hpending

/-- A handled echo sets a name that the store has already. -/
theorem inv_handle (hs : Inv cfg s) (h : step cfg s .handle = some t) : Inv cfg t := by
  simp only [step] at h
  split at h
  · cases h
  · rename_i msg rest hincoming
    rw [Option.some.injEq] at h
    subst h
    have hmsg : msg ∈ s.incoming := by
      rw [hincoming]
      exact List.mem_cons_self
    -- the handled names are already there
    have hsame : ∀ name, name ∈ (messageHandler cfg s.store msg).store.keys ↔
        name ∈ s.store.keys := by
      intro name
      rw [mem_keys_messageHandler]
      exact or_iff_right_of_imp (hs.queued msg hmsg name)
    refine ⟨fun name => (hsame name).trans (hs.names name), ?_, ?_⟩
    · intro msg' hmsg' name hname
      have hold : msg' ∈ s.incoming := by
        rw [hincoming]
        exact List.mem_cons_of_mem _ hmsg'
      exact (hsame name).mpr (hs.queued msg' hold name hname)
    · intro call hcall name hname
      exact (hsame name).mpr (hs.pending call hcall name hname)

/-- **One step** keeps the invariant while no deletion overtakes an echo. -/
theorem inv_step (s : State) (a : Action) (t : State) (hs : Inv cfg s)
    (hok : NoQueuedEcho cfg s a) (h : step cfg s a = some t) : Inv cfg t := by
  cases a with
  | request r =>
      cases r with
      | put name value => exact inv_put hs h
      | delete name => exact inv_delete hs hok h
  | publish => exact inv_publish hs h
  | handle => exact inv_handle hs h

/-- **Echoes do not change the names.**  In a run in which no DELETE overtakes
an echo of its name, the store has at every moment the names that the requests
alone produce; a name whose last request was a DELETE is absent. -/
theorem names_of_noQueuedEcho (cfg : Config) (store : StateStore) {schedule : List Action}
    {t : State} (hok : StepsMeet (step cfg) (NoQueuedEcho cfg) (start store) schedule)
    (hrun : runFrom (step cfg) (start store) schedule = some t) :
    t.store.keys = ((requests schedule).foldl requestStore store).keys ∧
      ∀ before after name, requests schedule = before ++ .delete name :: after →
        (∀ r ∈ after, r.name ≠ name) → name ∉ t.store.keys := by
  have hstart : Inv cfg (start store) :=
    ⟨fun _ => Iff.rfl, fun _ hmsg => absurd hmsg List.not_mem_nil,
      fun _ hcall => absurd hcall (Option.not_mem_none _)⟩
  have hinv := invariant_of_guarded_run inv_step hstart hok hrun
  have hreference := reference_run hrun
  constructor
  · rw [show store = (start store).reference from rfl, ← hreference]
    exact SortedMap.eq_of_mem_iff t.store.sorted t.reference.sorted hinv.names
  · intro before after name hsplit hafter
    rw [hinv.names, hreference, hsplit, List.foldl_append, List.foldl_cons,
      mem_keys_foldl_of_ne hafter, requestStore, StateStore.mem_keys_remove]
    exact fun h => h.1 rfl

/-- Subscribed to everything. -/
def subscribed : Config := { subscribeEnabled := true }

/-- A write, its echo, and only then the DELETE. -/
theorem names_echo_first :
    ∃ t, runFrom (step subscribed) (start SortedMap.empty)
      [.request (.put (ascii "m") (Binary64.ofInt 1)), .publish, .handle,
        .request (.delete (ascii "m")), .publish, .handle] = some t ∧ t.store.keys = [] := by
  obtain ⟨t, hrun, -⟩ := exists_of_runFrom
    (step subscribed) (start SortedMap.empty)
    [.request (.put (ascii "m") (Binary64.ofInt 1)), .publish, .handle,
        .request (.delete (ascii "m")), .publish, .handle]
    (fun _ => true) (by decide +kernel)
  refine ⟨t, hrun, ?_⟩
  rw [(names_of_noQueuedEcho subscribed SortedMap.empty (by decide +kernel) hrun).1]
  decide +kernel

/-- **A deleted name comes back.**  The write's echo is handled after the DELETE
was answered. -/
theorem echo_restores_name :
    ¬ ∀ (schedule : List Action) (t : State),
      runFrom (step subscribed) (start SortedMap.empty) schedule = some t →
      t.pending = none → t.incoming = [] →
      t.store.keys = ((requests schedule).foldl requestStore SortedMap.empty).keys := by
  intro hclaim
  obtain ⟨t, hrun, ht⟩ := exists_of_runFrom
    (step subscribed) (start SortedMap.empty)
    [.request (.put (ascii "m") (Binary64.ofInt 1)), .publish,
        .request (.delete (ascii "m")), .publish, .handle, .handle]
    (fun t => decide (t.pending = none ∧ t.incoming = [] ∧ t.store.keys = [ascii "m"]))
    (by decide +kernel)
  rw [decide_eq_true_eq] at ht
  have hkeys := hclaim _ t hrun ht.1 ht.2.1
  rw [ht.2.2] at hkeys
  exact absurd hkeys (by decide +kernel)

end EchoRaces

end Nshmqtt
