import Nshmqtt.MessageHandler
import Nshmqtt.ObservedRuns
import Nshmqtt.ReloadableValues
import Nshmqtt.Server
import Nshmqtt.StableText

/-!
# What a restart can be noticed by

The state file has nine digits of each value, so a restart changes the stored doubles.
It is still never noticed: the value read back has the text of the old one, and nothing
that leaves the process depends on a stored value except through that text.

The process is compared with an ideal one that keeps a copy of the store, with the exact
doubles, at each save that succeeds, and starts again from that copy.  It refuses to start
when a value of the copy would be shown as a subnormal number.

* `formatDouble_reread` and `reread_stable`: a value changes at the first restart at most;
* `SameText` and its lemmas: what depends on the texts alone;
* `restarts_unnoticed`: every run with restarts answers as the ideal process does.
-/

namespace Nshmqtt

open ByteStrings DecimalText Binary64 ObservedRuns

/-- A sign in front of a word. -/
def signedWord (negative : Bool) (word : Bytes) : Bytes :=
  (if negative then [minus] else []) ++ word

/-- The three words that stand for no nonzero number are read as what they stand for, and
that is written as the word. -/
theorem special_words : ∀ negative : Bool,
    (accepted (strtod (signedWord negative (ascii "nan"))) = some (nan negative) ∧
      accepted (strtod (signedWord negative (ascii "inf"))) = some (infinity negative) ∧
      accepted (strtod (signedWord negative [zeroDigit])) = some (ofCode negative 0)) ∧
    (formatDouble (nan negative) = signedWord negative (ascii "nan") ∧
      formatDouble (infinity negative) = signedWord negative (ascii "inf") ∧
      formatDouble (ofCode negative 0) = signedWord negative [zeroDigit]) := by
  decide +kernel

/-- **The text is kept.**  A value that is read back from its text has the same text. -/
theorem formatDouble_reread {v w : Double} (h : parseDouble (formatDouble v) = some w) :
    formatDouble w = formatDouble v := by
  rw [parseDouble_formatDouble] at h
  obtain ⟨⟨hreadNan, hreadInf, hreadZero⟩, hnanText, hinfText, hzeroText⟩ :=
    special_words v.negative
  by_cases hnan : v.isNan = true
  · have hformat : formatDouble v = signedWord v.negative (ascii "nan") := by
      simp [formatDouble, formatGeneral, signedWord, hnan]
    rw [hformat, hreadNan] at h
    rw [hformat, ← Option.some.inj h, hnanText]
  by_cases hinf : v.isInf = true
  · have hformat : formatDouble v = signedWord v.negative (ascii "inf") := by
      simp [formatDouble, formatGeneral, signedWord, hnan, hinf]
    rw [hformat, hreadInf] at h
    rw [hformat, ← Option.some.inj h, hinfText]
  by_cases hzero : v.quanta = 0
  · have hformat : formatDouble v = signedWord v.negative [zeroDigit] := by
      simp [formatDouble, formatGeneral, signedWord, hnan, hinf, hzero]
    rw [hformat, hreadZero] at h
    rw [hformat, ← Option.some.inj h, hzeroText]
  · rw [Bool.not_eq_true] at hnan hinf
    obtain ⟨read, hread, hno, -, hvalue⟩ := accepted_eq_some.mp h
    rw [← hvalue]
    exact formatGeneral_reread (by decide) (by decide) hnan hinf hzero hread hno

/-- **A value changes once.**  What is read back from the text of a value has the same
text, and is read back as itself from then on. -/
theorem reread_stable {v w : Double} (h : StateStore.reread v = some w) :
    formatDouble w = formatDouble v ∧ StateStore.reread w = some w := by
  have htext := formatDouble_reread h
  refine ⟨htext, ?_⟩
  rw [StateStore.reread, htext]
  exact h

/-- Ten digits come back as nine, and then stay. -/
theorem reread_stable_ten_digits :
    ∃ v w, parseDouble (ascii "0.1234567891") = some v ∧ StateStore.reread v = some w ∧ w ≠ v ∧
      formatDouble w = formatDouble v ∧ StateStore.reread w = some w := by
  have hchanged : (parseDouble (ascii "0.1234567891")).any (fun v =>
      (StateStore.reread v).any fun w => w != v) = true := by decide +kernel
  obtain ⟨v, hv, hw⟩ := (Option.any_eq_true _ _).mp hchanged
  obtain ⟨w, hw, hne⟩ := (Option.any_eq_true _ _).mp hw
  exact ⟨v, w, hv, hw, bne_iff_ne.mp hne, reread_stable hw⟩

namespace StateStore

/-- The same names with the same texts of their values. -/
def SameText (a b : StateStore) : Prop := a.mapValues formatDouble = b.mapValues formatDouble

variable {a b : StateStore}

/-- Stores have the same texts when each name has. -/
theorem sameText_iff : SameText a b ↔
    ∀ name, (a.lookup name).map formatDouble = (b.lookup name).map formatDouble := by
  constructor
  · intro h name
    rw [← SortedMap.lookup_mapValues, ← SortedMap.lookup_mapValues, h]
  · intro h
    apply SortedMap.ext_lookup
    intro name
    rw [SortedMap.lookup_mapValues, SortedMap.lookup_mapValues, h]

namespace SameText

theorem refl (a : StateStore) : SameText a a := rfl

theorem texts_eq (h : SameText a b) : a.texts = b.texts := congrArg SortedMap.entries h

/-- Stores with the same texts have the same names. -/
theorem isSome_lookup (h : SameText a b) (name : Bytes) :
    (a.lookup name).isSome = (b.lookup name).isSome := by
  have hname := congrArg Option.isSome (sameText_iff.mp h name)
  rwa [Option.isSome_map, Option.isSome_map] at hname

/-- A value that is set is the same in both. -/
theorem set (h : SameText a b) (name : Bytes) (value : Double) :
    SameText (a.set name value) (b.set name value) := by
  rw [sameText_iff] at h ⊢
  intro other
  rw [StateStore.set, StateStore.set, SortedMap.lookup_insert, SortedMap.lookup_insert]
  split_ifs
  · rfl
  · exact h other

/-- A name that is removed was in both or in neither. -/
theorem remove (h : SameText a b) (name : Bytes) :
    (a.remove name).2 = (b.remove name).2 ∧ SameText (a.remove name).1 (b.remove name).1 := by
  refine ⟨h.isSome_lookup name, ?_⟩
  rw [sameText_iff] at h ⊢
  intro other
  rw [StateStore.remove, StateStore.remove, SortedMap.lookup_erase, SortedMap.lookup_erase]
  split_ifs
  · rfl
  · exact h other

theorem foldl_set (h : SameText a b) (updates : List (Bytes × Double)) :
    SameText (updates.foldl (fun store update => store.set update.1 update.2) a)
      (updates.foldl (fun store update => store.set update.1 update.2) b) := by
  induction updates generalizing a b with
  | nil => exact h
  | cons update updates ih => exact ih (h.set update.1 update.2)

theorem size_eq (h : SameText a b) : a.size = b.size := by
  have hlength := congrArg List.length h.texts_eq
  rwa [texts, texts, List.length_map, List.length_map] at hlength

/-- Stores with the same texts are saved alike. -/
theorem saveText_eq (h : SameText a b) : saveText a.snapshot = saveText b.snapshot := by
  have hmembers : ∀ store : StateStore, store.snapshot.map memberText =
      store.texts.map fun item =>
        [quote] ++ jsonEscape item.1 ++ [quote, colon] ++ item.2 := by
    intro store
    rw [texts, List.map_map]
    rfl
  rw [saveText, saveText, hmembers, hmembers, h.texts_eq]

/-- Which names lose their series depends on the names. -/
theorem collisions_eq (h : SameText a b) (pre topicPrefix : Bytes) :
    (normalizeAll pre a.snapshot topicPrefix).collisions =
      (normalizeAll pre b.snapshot topicPrefix).collisions := by
  have hnames : a.snapshot.map Prod.fst = b.snapshot.map Prod.fst := by
    have htexts := congrArg (List.map Prod.fst) h.texts_eq
    simpa [texts, Function.comp_def, snapshot] using htexts
  have hfrom : ∀ (items items' : List (Bytes × Double)) (claimed : List Bytes),
      items.map Prod.fst = items'.map Prod.fst →
      (normalizeFrom pre topicPrefix claimed items).collisions =
        (normalizeFrom pre topicPrefix claimed items').collisions := by
    intro items
    induction items with
    | nil =>
        intro items' claimed hitems
        rw [List.map_nil, eq_comm, List.map_eq_nil_iff] at hitems
        rw [hitems]
    | cons item items ih =>
        intro items' claimed hitems
        cases items' with
        | nil => cases hitems
        | cons item' items' =>
            rw [List.map_cons, List.map_cons, List.cons.injEq] at hitems
            simp only [normalizeFrom, hitems.1]
            split_ifs
            · exact congrArg (item'.1 :: ·) (ih items' _ hitems.2)
            · exact ih items' _ hitems.2
  exact hfrom _ _ _ hnames

/-- Stores with the same texts are shown alike. -/
theorem metricsStateBody_eq (h : SameText a b) (cfg : Config) :
    metricsStateBody cfg a = metricsStateBody cfg b := by
  apply renderPrometheusStateMetrics_congr
  exact normalizeFrom_congr _ _ _ h.texts_eq

/-- **Read back, a store looks the same.** -/
theorem reread {store : StateStore}
    (h : ∀ item ∈ store.entries, (StateStore.reread item.2).isSome = true) :
    SameText (store.mapValues fun v => (StateStore.reread v).getD v) store := by
  rw [sameText_iff]
  intro name
  rw [SortedMap.lookup_mapValues, Option.map_map]
  cases hlookup : store.lookup name with
  | none => rw [Option.map_none, Option.map_none]
  | some v =>
      have hsome : (StateStore.reread v).isSome = true :=
        h (name, v) ((SortedMap.mem_entries_iff _ _ _).mpr hlookup)
      obtain ⟨w, hw⟩ := Option.isSome_iff_exists.mp hsome
      have hkept : formatDouble ((StateStore.reread v).getD v) = formatDouble v := by
        rw [hw, Option.getD_some, formatDouble_reread hw]
      rw [Option.map_some, Option.map_some, Function.comp_apply, hkept]

end SameText

end StateStore

/-- What happens to the process: a connection, a message, or that it is started again. -/
inductive ProcessEvent
  | connection (env : Surroundings) (socket : List Recv)
  | message (io : StateStore.SaveIo) (msg : IncomingMessage)
  | restart

/-- What is seen of an event: the answer, and all the publish calls so far. -/
abbrev Seen := Option Bytes × List PublishCall

/-- The message handler with its save. -/
def ServerState.arrived (cfg : Config) (io : StateStore.SaveIo) (s : ServerState)
    (msg : IncomingMessage) : ServerState :=
  let handled := messageHandler cfg s.store msg
  { s with
    store := handled.store
    files :=
      if handled.saved then (handled.store.save cfg.stateFile s.files io).2 else s.files }

/-- What the start of the process finds under the path of the state file. -/
def foundFile : Option Bytes → StateStore.FileRead
  | none => .absent
  | some text => .contents text

/-- The start of the process: an empty store, filled from the state file where that is
switched on.  A file that cannot be loaded ends the process. -/
def ServerState.restarted (cfg : Config) (s : ServerState) : Option ServerState :=
  if cfg.stateEnabled then
    match StateStore.load SortedMap.empty cfg.stateFile (foundFile s.files.file) with
    | .ok store => some { s with store := store, metrics := {} }
    | .error _ => none
  else some { s with store := SortedMap.empty, metrics := {} }

/-- The process. -/
def processStep (cfg : Config) (s : ServerState) : ProcessEvent → Option (Seen × ServerState)
  | .connection env socket =>
      let (answer, t) := handleConnection cfg env s socket
      some ((answer, t.publishCalls), t)
  | .message io msg =>
      let t := s.arrived cfg io msg
      some ((none, t.publishCalls), t)
  | .restart => (s.restarted cfg).map fun t => ((none, t.publishCalls), t)

/-- A process whose saved state is a copy of its store. -/
structure IdealProcess where
  store : StateStore
  /-- The store at the last save that succeeded. -/
  saved : Option StateStore
  publishCalls : List PublishCall
  metrics : Metrics

namespace IdealProcess

/-- The state for one event, with no state file yet. -/
def server (p : IdealProcess) : ServerState :=
  { store := p.store, files := ⟨none, none⟩, publishCalls := p.publishCalls,
    metrics := p.metrics }

/-- The state after the event.  If there is a file now, then a save succeeded. -/
def after (p : IdealProcess) (t : ServerState) : IdealProcess :=
  { store := t.store
    saved := if t.files.file.isSome then some t.store else p.saved
    publishCalls := t.publishCalls
    metrics := t.metrics }

/-- The start: from the copy, unless one of its values is too small to be shown as a
normal number. -/
def restarted (cfg : Config) (p : IdealProcess) : Option IdealProcess :=
  if cfg.stateEnabled then
    match p.saved with
    | none => some { p with store := SortedMap.empty, metrics := {} }
    | some copy =>
        if ∀ item ∈ copy.entries, Reloadable item.2 then
          some { p with store := copy, metrics := {} }
        else none
  else some { p with store := SortedMap.empty, metrics := {} }

def step (cfg : Config) (p : IdealProcess) : ProcessEvent → Option (Seen × IdealProcess)
  | .connection env socket =>
      let (answer, t) := handleConnection cfg env p.server socket
      some ((answer, t.publishCalls), p.after t)
  | .message io msg =>
      let t := p.server.arrived cfg io msg
      some ((none, t.publishCalls), p.after t)
  | .restart => (p.restarted cfg).map fun q => ((none, q.publishCalls), q)

end IdealProcess

/-- The two states of one event, the first of which started with the file `before`. -/
structure Twins (before : Option Bytes) (s t : ServerState) : Prop where
  store : s.store.SameText t.store
  file : s.files.file = t.files.file.or before
  publishCalls : s.publishCalls = t.publishCalls
  metrics : s.metrics = t.metrics

/-- A file that was written is the text of the store. -/
def ServerState.Saved (t : ServerState) : Prop :=
  t.files.file = none ∨ t.files.file = some (StateStore.saveText t.store.snapshot)

/-- A handler's response and state on both sides. -/
structure TwinResults (before : Option Bytes) (r r' : HttpResponse × ServerState) : Prop where
  response : r.1 = r'.1
  state : Twins before r.2 r'.2
  saved : r'.2.Saved

variable {cfg : Config} {env : Surroundings} {before : Option Bytes} {s t : ServerState}
  {req : HttpRequest}

/-- Without a state file of its own the second state is saved. -/
theorem saved_of_fresh (h : t.files.file = none) : t.Saved := .inl h

namespace Twins

/-- A save leaves a file that both would have. -/
theorem saveFiles (h : Twins before s t) (hfresh : t.files.file = none) (path : Bytes)
    (io : StateStore.SaveIo) :
    Twins before { s with files := (s.store.save path s.files io).2 }
        { t with files := (t.store.save path t.files io).2 } ∧
      ServerState.Saved { t with files := (t.store.save path t.files io).2 } := by
  cases io with
  | succeeds =>
      refine ⟨⟨h.store, ?_, h.publishCalls, h.metrics⟩, .inr rfl⟩
      exact congrArg some h.store.saveText_eq
  | openFails | writeFails | renameFails =>
      exact ⟨⟨h.store, h.file, h.publishCalls, h.metrics⟩, .inl hfresh⟩

/-- Both sides save, or neither does. -/
theorem saveState (h : Twins before s t) (hfresh : t.files.file = none) (cfg : Config)
    (env : Surroundings) :
    Twins before (saveState cfg env s) (saveState cfg env t) ∧ (Nshmqtt.saveState cfg env t).Saved := by
  unfold Nshmqtt.saveState
  split_ifs
  · exact h.saveFiles hfresh _ _
  · exact ⟨h, saved_of_fresh hfresh⟩

theorem publish (h : Twins before s t) (call : PublishCall) :
    Twins before (s.publish call) (t.publish call) :=
  ⟨h.store, h.file, congrArg (· ++ [call]) h.publishCalls, h.metrics⟩

theorem set (h : Twins before s t) (name : Bytes) (value : Double) :
    Twins before { s with store := s.store.set name value }
      { t with store := t.store.set name value } :=
  ⟨h.store.set name value, h.file, h.publishCalls, h.metrics⟩

theorem remove (h : Twins before s t) (name : Bytes) :
    Twins before { s with store := (s.store.remove name).1 }
      { t with store := (t.store.remove name).1 } :=
  ⟨(h.store.remove name).2, h.file, h.publishCalls, h.metrics⟩

theorem recordRequest (h : Twins before s t) (path : Bytes) :
    Twins before (s.recordRequest path) (t.recordRequest path) :=
  ⟨h.store, h.file, h.publishCalls, congrArg (Metrics.recordRequest · path) h.metrics⟩

theorem recordResponse (h : Twins before s t) (status : Nat) :
    Twins before (s.recordResponse status) (t.recordResponse status) :=
  ⟨h.store, h.file, h.publishCalls, congrArg (Metrics.recordResponse · status) h.metrics⟩

end Twins

section Handlers

variable (h : Twins before s t) (hfresh : t.files.file = none)

include h hfresh

/-- A handler that changes nothing. -/
theorem TwinResults.unchanged (resp : HttpResponse) : TwinResults before (resp, s) (resp, t) :=
  ⟨rfl, h, saved_of_fresh hfresh⟩

/-- Twins answer an event alike. -/
theorem handleEvent_twins :
    TwinResults before (handleEvent cfg env s req) (handleEvent cfg env t req) := by
  unfold handleEvent
  cases eventCall cfg env req with
  | error resp => exact .unchanged h hfresh resp
  | ok call => exact ⟨rfl, h.publish call, saved_of_fresh hfresh⟩

theorem handleMetricWrite_twins (name : Bytes) (value : Double) :
    TwinResults before (handleMetricWrite cfg env s name value)
      (handleMetricWrite cfg env t name value) := by
  obtain ⟨htwins, hsaved⟩ := (h.set name value).saveState hfresh cfg env
  exact ⟨rfl, htwins.publish _, hsaved⟩

theorem handleMetricDelete_twins (name : Bytes) :
    TwinResults before (handleMetricDelete cfg env s name)
      (handleMetricDelete cfg env t name) := by
  unfold handleMetricDelete
  simp only [(h.store.remove name).1]
  split_ifs
  · exact .unchanged h hfresh _
  · obtain ⟨htwins, hsaved⟩ := (h.remove name).saveState hfresh cfg env
    exact ⟨rfl, htwins.publish _, hsaved⟩

theorem handleMetric_twins :
    TwinResults before (handleMetric cfg env s req) (handleMetric cfg env t req) := by
  unfold handleMetric
  simp only
  split_ifs
  · exact .unchanged h hfresh _
  · exact handleMetricDelete_twins h hfresh _
  · cases putValue req with
    | none => exact .unchanged h hfresh _
    | some value => exact handleMetricWrite_twins h hfresh _ value
  · cases findQueryParam req (ascii "value") with
    | none => exact .unchanged h hfresh _
    | some valueText =>
        simp only
        cases parseDouble valueText with
        | none => exact .unchanged h hfresh _
        | some value => exact handleMetricWrite_twins h hfresh _ value
  · exact .unchanged h hfresh _
  · exact .unchanged h hfresh _

omit hfresh in
theorem serviceBody_twins : serviceBody cfg env s = serviceBody cfg env t := by
  unfold serviceBody normalizedState
  rw [h.metrics, h.store.size_eq, h.store.collisions_eq]

omit hfresh in
theorem healthResponse_twins : healthResponse cfg env s req = healthResponse cfg env t req := by
  unfold healthResponse
  rw [h.store.size_eq]

/-- **One request**: the same response, and states that are twins again. -/
theorem route_twins : TwinResults before (route cfg env s req) (route cfg env t req) := by
  unfold route
  simp only [serviceBody_twins h, healthResponse_twins h, h.store.metricsStateBody_eq cfg]
  split_ifs
  · exact .unchanged h hfresh _
  · exact handleEvent_twins h hfresh
  · exact handleMetric_twins h hfresh
  all_goals exact .unchanged h hfresh _

/-- One connection. -/
theorem handleConnection_twins (socket : List Recv) :
    (handleConnection cfg env s socket).1 = (handleConnection cfg env t socket).1 ∧
      Twins before (handleConnection cfg env s socket).2 (handleConnection cfg env t socket).2 ∧
      (handleConnection cfg env t socket).2.Saved := by
  unfold handleConnection
  cases receive cfg socket with
  | dropped counted =>
      cases counted with
      | none => exact ⟨rfl, h, saved_of_fresh hfresh⟩
      | some path => exact ⟨rfl, h.recordRequest path, saved_of_fresh hfresh⟩
  | rejected path resp isHead =>
      exact ⟨rfl, (h.recordRequest path).recordResponse _, saved_of_fresh hfresh⟩
  | request req =>
      have hroute : TwinResults before (route cfg env (s.recordRequest req.path) req)
          (route cfg env (t.recordRequest req.path) req) :=
        route_twins (h.recordRequest req.path) hfresh
      simp only [hroute.response]
      exact ⟨trivial, hroute.state.recordResponse _, hroute.saved⟩

/-- One message. -/
theorem arrived_twins (io : StateStore.SaveIo) (msg : IncomingMessage) :
    Twins before (s.arrived cfg io msg) (t.arrived cfg io msg) ∧ (t.arrived cfg io msg).Saved := by
  have hstore : Twins before { s with store := (messageHandler cfg s.store msg).store }
      { t with store := (messageHandler cfg t.store msg).store } :=
    ⟨h.store.foldl_set _, h.file, h.publishCalls, h.metrics⟩
  have hsaved : (messageHandler cfg s.store msg).saved = (messageHandler cfg t.store msg).saved :=
    rfl
  unfold ServerState.arrived
  simp only [hsaved]
  split_ifs
  · exact hstore.saveFiles hfresh _ _
  · exact ⟨hstore, saved_of_fresh hfresh⟩

end Handlers

/-- The process has the texts of the ideal one, in the store and in the state file. -/
structure Represents (s : ServerState) (p : IdealProcess) : Prop where
  store : s.store.SameText p.store
  file : s.files.file = p.saved.map fun copy => StateStore.saveText copy.snapshot
  publishCalls : s.publishCalls = p.publishCalls
  metrics : s.metrics = p.metrics

namespace Represents

variable {p : IdealProcess}

/-- At the beginning of an event. -/
theorem twins (h : Represents s p) :
    Twins (p.saved.map fun copy => StateStore.saveText copy.snapshot) s p.server :=
  ⟨h.store, h.file, h.publishCalls, h.metrics⟩

/-- At its end. -/
theorem of_twins (h : Twins (p.saved.map fun copy => StateStore.saveText copy.snapshot) s t)
    (hsaved : t.Saved) : Represents s (p.after t) := by
  refine ⟨h.store, ?_, h.publishCalls, h.metrics⟩
  rw [h.file, IdealProcess.after]
  rcases hsaved with hnone | hsome
  · rw [hnone]
    rfl
  · rw [hsome]
    rfl

/-- A saved copy is loaded with the texts it had. -/
theorem load_of_reloadable {copy : StateStore} (h : ∀ item ∈ copy.entries, Reloadable item.2)
    (path : Bytes) : ∃ loaded : StateStore, StateStore.load SortedMap.empty path
      (.contents (StateStore.saveText copy.snapshot)) = .ok loaded ∧ loaded.SameText copy := by
  have hreread : ∀ item ∈ copy.entries, (StateStore.reread item.2).isSome = true :=
    fun item hitem => (Reloadable.isSome_reread_iff item.2).mpr (h item hitem)
  refine ⟨_, ?_, StateStore.SameText.reread hreread⟩
  rw [StateStore.load, StateStore.parseFlatNumberObject_saveText hreread]

/-- Or it is refused. -/
theorem load_of_not_reloadable {copy : StateStore}
    (h : ¬ ∀ item ∈ copy.entries, Reloadable item.2) (path : Bytes) :
    ∃ err, StateStore.load SortedMap.empty path
      (.contents (StateStore.saveText copy.snapshot)) = .error err := by
  cases hload : StateStore.load SortedMap.empty path
      (.contents (StateStore.saveText copy.snapshot)) with
  | error err => exact ⟨err, rfl⟩
  | ok loaded =>
      have hvalues := (StateStore.load_saveText_iff copy SortedMap.empty path).mp ⟨loaded, hload⟩
      refine absurd (fun item hitem => ?_) h
      exact hvalues item.1 item.2 ((SortedMap.mem_entries_iff _ _ _).mp hitem)

/-- A start that keeps the files and the calls. -/
theorem started (h : Represents s p) {q : IdealProcess} (hstore : t.store.SameText q.store)
    (hfiles : t.files = s.files) (hcalls : t.publishCalls = s.publishCalls)
    (hmetrics : t.metrics = q.metrics) (hsaved : q.saved = p.saved)
    (hcalls' : q.publishCalls = p.publishCalls) :
    Alike Represents (some (((none, t.publishCalls) : Seen), t)) (some ((none, q.publishCalls), q)) := by
  have heq : t.publishCalls = q.publishCalls := by rw [hcalls, h.publishCalls, hcalls']
  have hq : Represents t q := ⟨hstore, by rw [hfiles, h.file, hsaved], heq, hmetrics⟩
  rw [heq]
  exact .answered _ hq

/-- **One restart.** -/
theorem restarted (h : Represents s p) (cfg : Config) :
    Alike Represents (processStep cfg s .restart) (p.step cfg .restart) := by
  have hempty := StateStore.SameText.refl SortedMap.empty
  simp only [processStep, IdealProcess.step, ServerState.restarted, IdealProcess.restarted, h.file]
  split_ifs
  · cases hcopy : p.saved with
    | none => exact h.started hempty rfl rfl rfl hcopy.symm rfl
    | some copy =>
        simp only [Option.map_some, foundFile]
        by_cases hreload : ∀ item ∈ copy.entries, Reloadable item.2
        · obtain ⟨loaded, hload, htext⟩ := load_of_reloadable hreload cfg.stateFile
          rw [hload, if_pos hreload]
          exact h.started htext rfl rfl rfl hcopy.symm rfl
        · obtain ⟨err, hload⟩ := load_of_not_reloadable hreload cfg.stateFile
          rw [hload, if_neg hreload]
          exact .stuck
  · exact h.started hempty rfl rfl rfl rfl rfl

end Represents

/-- **One event.** -/
theorem processStep_alike {p : IdealProcess} (h : Represents s p) (event : ProcessEvent) :
    Alike Represents (processStep cfg s event) (p.step cfg event) := by
  cases event with
  | connection env socket =>
      obtain ⟨hanswer, htwins, hsaved⟩ := @handleConnection_twins cfg env _ _ _
        h.twins rfl socket
      have hafter := Represents.of_twins htwins hsaved
      simp only [processStep, IdealProcess.step, hanswer, htwins.publishCalls]
      exact .answered _ hafter
  | message io msg =>
      obtain ⟨htwins, hsaved⟩ := @arrived_twins cfg _ _ _ h.twins rfl io msg
      have hafter := Represents.of_twins htwins hsaved
      simp only [processStep, IdealProcess.step, htwins.publishCalls]
      exact .answered _ hafter
  | restart => exact h.restarted cfg

/-- The process that has the texts of an ideal one; what is left of a save that failed
does not matter. -/
def IdealProcess.written (p : IdealProcess) (tmp : Option Bytes) : ServerState :=
  { store := p.store
    files := ⟨p.saved.map fun copy => StateStore.saveText copy.snapshot, tmp⟩
    publishCalls := p.publishCalls
    metrics := p.metrics }

/-- **Restarts go unnoticed.**  In every run of connections, messages and restarts, with
saves that succeed or fail, the process gives the answers and makes the publish calls of
one that keeps the exact store of each successful save and starts from it; and it fails to
start when that one does, which is when a value of that store is shown as a subnormal
number. -/
theorem restarts_unnoticed (cfg : Config) (p : IdealProcess) (tmp : Option Bytes)
    (events : List ProcessEvent) :
    (observe (processStep cfg) (p.written tmp) events).map Prod.fst =
      (observe (IdealProcess.step cfg) p events).map Prod.fst :=
  observe_lockstep (fun _ _ event h => processStep_alike h event)
    ⟨StateStore.SameText.refl _, rfl, rfl, rfl⟩ events

end Nshmqtt
