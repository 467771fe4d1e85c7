import Nshmqtt.Server
import Nshmqtt.TransitionRuns
import Nshmqtt.WriteBehind

/-!
# The broker's mirror of one metric

A write or a deletion changes the store under the store's mutex and then hands
a retained publish to the queue of the MQTT client, from which the connections
of the pool take the jobs.  The two locks are independent: two requests for one
name may reach the broker in the other order than the store, and the retained
message is then that of the earlier value for good.

The mirror is correct in every run in which no publish replaces a retained
message that agrees with the store by one that does not.
-/

namespace Nshmqtt

open ByteStrings TransitionRuns WriteBehind

namespace RetainedMirror

/-- A request for the name. -/
inductive Task
  | put (value : Double)
  | delete
  deriving DecidableEq

/-- The point a request has reached. -/
inductive Phase
  | ready (task : Task)
  /-- The store is updated, `publish` not yet called. -/
  | stored (call : PublishCall)
  /-- Its job is in the queue or with a connection. -/
  | queued (call : PublishCall)
  /-- Its job is done. -/
  | published
  | answered
  deriving DecidableEq

variable {ι κ : Type*}

/-- The store, the publish queue, the job each connection has in hand, and the
broker's retained message for the name. -/
structure State (ι κ : Type*) where
  store : StateStore
  queue : List ι
  running : κ → Option ι
  retained : Option Bytes
  phase : ι → Phase

inductive Action (ι κ : Type*)
  /-- The request updates the store. -/
  | update (i : ι)
  /-- Its job is pushed onto the queue. -/
  | enqueue (i : ι)
  /-- A connection takes the oldest job. -/
  | take (c : κ)
  /-- The connection's Paho publish reaches the broker and is acknowledged. -/
  | publish (c : κ)
  | answer (i : ι)

/-- What the broker retains after a retained publish: an empty payload clears. -/
def retainedBy (call : PublishCall) : Option Bytes :=
  if call.payload = [] then none else some call.payload

variable [DecidableEq ι] [DecidableEq κ]

def State.move (s : State ι κ) (i : ι) (phase : Phase) : State ι κ :=
  { s with phase := Function.update s.phase i phase }

def step (cfg : Config) (name : Bytes) (s : State ι κ) : Action ι κ → Option (State ι κ)
  | .update i =>
      match s.phase i with
      | .ready (.put value) =>
          some ({ s with store := s.store.set name value }.move i
            (.stored (metricWriteCall cfg name value)))
      | .ready .delete =>
          let (store, existed) := s.store.remove name
          some ({ s with store := store }.move i
            (if existed then .stored (metricDeleteCall cfg name) else .answered))
      | _ => none
  | .enqueue i =>
      match s.phase i with
      | .stored call =>
          if (s.queue.length : Int) < cfg.mqttQueueSize then
            some ({ s with queue := s.queue ++ [i] }.move i (.queued call))
          else none
      | _ => none
  | .take c =>
      match s.running c, s.queue with
      | none, i :: rest =>
          some { s with queue := rest, running := Function.update s.running c (some i) }
      | _, _ => none
  | .publish c =>
      match s.running c with
      | none => none
      | some i =>
          match s.phase i with
          | .queued call =>
              some ({ s with
                running := Function.update s.running c none
                retained := retainedBy call }.move i .published)
          | _ => none
  | .answer i =>
      match s.phase i with
      | .published => some (s.move i .answered)
      | _ => none

/-- The retained message that agrees with the store. -/
def mirrorOf (name : Bytes) (store : StateStore) : Option Bytes :=
  (store.lookup name).map formatDouble

/-- What a request still owes the broker. -/
def stage : Phase → Stage (Option Bytes)
  | .ready _ => .idle
  | .stored call => .holding (retainedBy call)
  | .queued call => .holding (retainedBy call)
  | .published => .idle
  | .answered => .idle

/-- The copy in hand, if there is one, may be published now. -/
def FreshCopy (name : Bytes) (store : StateStore) (retained : Option Bytes) :
    Stage (Option Bytes) → Prop
  | .holding copy => FreshFlush (mirrorOf name) store retained copy
  | _ => True

/-- The condition on a step: a publish does not replace a retained message that
agrees with the store by one that does not. -/
def FreshPublish (name : Bytes) (s : State ι κ) : Action ι κ → Prop
  | .publish c => ∀ i ∈ s.running c, FreshCopy name s.store s.retained (stage (s.phase i))
  | _ => True

instance (name : Bytes) (store : StateStore) (retained : Option Bytes) :
    ∀ stage, Decidable (FreshCopy name store retained stage)
  | .holding copy => inferInstanceAs (Decidable (
      retained = mirrorOf name store → copy = mirrorOf name store))
  | .idle => .isTrue trivial
  | .dirty => .isTrue trivial

instance (name : Bytes) (s : State ι κ) : ∀ a, Decidable (FreshPublish name s a)
  | .publish c => inferInstanceAs (Decidable (
      ∀ i ∈ s.running c, FreshCopy name s.store s.retained (stage (s.phase i))))
  | .update _ => .isTrue trivial
  | .enqueue _ => .isTrue trivial
  | .take _ => .isTrue trivial
  | .answer _ => .isTrue trivial

/-- The retained message is current, or a request still owes the current one. -/
def Mirrored (name : Bytes) (s : State ι κ) : Prop :=
  Covered (mirrorOf name) s.store s.retained fun i => stage (s.phase i)

variable {cfg : Config} {name : Bytes} {s t : State ι κ}

/-- A write leaves the text of its value at the broker. -/
theorem retainedBy_write (cfg : Config) (name : Bytes) (value : Double) :
    retainedBy (metricWriteCall cfg name value) = some (formatDouble value) :=
  if_neg (DecimalText.formatGeneral_ne_nil value)

omit [DecidableEq κ] in
/-- The task that moves is in its next stage. -/
theorem stage_move_self (s : State ι κ) (i : ι) (phase : Phase) :
    stage ((s.move i phase).phase i) = stage phase := by
  simp [State.move]

omit [DecidableEq κ] in
theorem stage_move_of_ne (s : State ι κ) {i j : ι} (phase : Phase) (h : j ≠ i) :
    stage ((s.move i phase).phase j) = stage (s.phase j) := by
  simp [State.move, h]

omit [DecidableEq κ] in
/-- A request that moves to a phase with the same obligation keeps the mirror. -/
theorem mirrored_move {i : ι} {phase : Phase} {queue : List ι} {running : κ → Option ι}
    (hs : Mirrored name s) (hstage : stage phase = stage (s.phase i)) :
    Mirrored name ({ s with queue := queue, running := running }.move i phase) := by
  apply covered_of_stages hs
  intro j _
  by_cases hj : j = i
  · rw [hj, stage_move_self, hstage]
  · exact stage_move_of_ne _ _ hj

/-- The update makes the request owe exactly the message of the new value. -/
theorem mirrored_update {i : ι} (hs : Mirrored name s)
    (h : step cfg name s (.update i) = some t) : Mirrored name t := by
  simp only [step] at h
  split at h
  · rename_i value hphase
    rw [Option.some.injEq] at h
    subst h
    apply covered_of_capture (i := i)
    rw [stage_move_self, stage, retainedBy_write]
    exact congrArg Stage.holding (by simp [mirrorOf, StateStore.set, State.move])
  · rename_i hphase
    rw [Option.some.injEq] at h
    subst h
    cases hexisted : (s.store.remove name).2 with
    | true =>
        apply covered_of_capture (i := i)
        rw [if_pos rfl, stage_move_self]
        exact congrArg Stage.holding
          (by simp [mirrorOf, StateStore.remove, SortedMap.lookup_erase, State.move, retainedBy,
            metricDeleteCall])
    | false =>
        -- there was no entry, and the request is answered at once
        rw [StateStore.remove_absent hexisted]
        exact mirrored_move hs (by rw [hphase]; rfl)
  · cases h

/-- A fresh publish keeps the mirror. -/
theorem mirrored_publish {c : κ} (hs : Mirrored name s) (hok : FreshPublish name s (.publish c))
    (h : step cfg name s (.publish c) = some t) : Mirrored name t := by
  simp only [step] at h
  split at h
  · cases h
  · rename_i i hrunning
    split at h
    · rename_i call hphase
      rw [Option.some.injEq] at h
      subst h
      have hholding : stage (s.phase i) = .holding (retainedBy call) := by
        rw [hphase]
        rfl
      have hfresh := hok i hrunning
      rw [hholding] at hfresh
      exact covered_of_flush hs hholding hfresh
        fun j hj => stage_move_of_ne _ _ hj
    · cases h

/-- **One step** keeps the mirror while no older publish overtakes. -/
theorem mirrored_step (s : State ι κ) (a : Action ι κ) (t : State ι κ) (hs : Mirrored name s)
    (hok : FreshPublish name s a) (h : step cfg name s a = some t) : Mirrored name t := by
  cases a with
  | update i => exact mirrored_update hs h
  | publish c => exact mirrored_publish hs hok h
  | enqueue i =>
      simp only [step] at h
      split at h
      · rename_i call hphase
        split_ifs at h
        rw [Option.some.injEq] at h
        subst h
        exact mirrored_move hs (by rw [hphase]; rfl)
      · cases h
  | take c =>
      simp only [step] at h
      split at h
      · rw [Option.some.injEq] at h
        subst h
        exact hs
      · cases h
  | answer i =>
      simp only [step] at h
      split at h
      · rename_i hphase
        rw [Option.some.injEq] at h
        subst h
        exact mirrored_move hs (by rw [hphase]; rfl)
      · cases h

/-- Every job in the queue or with a connection belongs to a waiting request,
and to each request there is one job at most. -/
structure JobsWait (s : State ι κ) : Prop where
  queued : ∀ i ∈ s.queue, ∃ call, s.phase i = .queued call
  running : ∀ c, ∀ i ∈ s.running c, ∃ call, s.phase i = .queued call
  nodup : s.queue.Nodup
  apart : ∀ c, ∀ i ∈ s.running c, i ∉ s.queue
  single : ∀ c c', ∀ i ∈ s.running c, i ∈ s.running c' → c = c'

omit [DecidableEq κ] in
/-- A request without a job may change its phase. -/
theorem jobsWait_move {i : ι} (phase : Phase) (store : StateStore) (hs : JobsWait s)
    (hi : ∀ call, s.phase i ≠ .queued call) :
    JobsWait ({ s with store := store }.move i phase) := by
  have hother : ∀ j, (∃ call, s.phase j = .queued call) →
      ∃ call, Function.update s.phase i phase j = .queued call := by
    intro j hj
    obtain ⟨call, hcall⟩ := hj
    have hne : j ≠ i := by
      intro heq
      exact hi call (heq ▸ hcall)
    exact ⟨call, by rw [Function.update_of_ne hne, hcall]⟩
  exact ⟨fun j hj => hother j (hs.queued j hj), fun c j hj => hother j (hs.running c j hj),
    hs.nodup, hs.apart, hs.single⟩

/-- A job waits from the moment it is queued. -/
theorem jobsWait_enqueue {i : ι} (hs : JobsWait s)
    (h : step cfg name s (.enqueue i) = some t) : JobsWait t := by
  simp only [step] at h
  split at h
  · rename_i call hphase
    split_ifs at h
    rw [Option.some.injEq] at h
    subst h
    have hfree : ∀ call', s.phase i ≠ .queued call' := by
      intro call' hqueued
      rw [hphase] at hqueued
      cases hqueued
    have hmoved := jobsWait_move (.queued call) s.store hs hfree
    have hnotin : i ∉ s.queue := by
      intro hmem
      obtain ⟨call', hcall'⟩ := hs.queued i hmem
      exact hfree call' hcall'
    refine ⟨?_, hmoved.running, ?_, ?_, hmoved.single⟩
    · intro j hj
      rcases List.mem_append.mp hj with hold | hnew
      · exact hmoved.queued j hold
      · rw [List.mem_singleton.mp hnew]
        exact ⟨call, Function.update_self ..⟩
    · exact List.nodup_append.mpr ⟨hs.nodup, by simp, by
        intro a ha b hb heq
        rw [List.mem_singleton.mp hb] at heq
        exact hnotin (heq ▸ ha)⟩
    · intro c j hj hmem
      rcases List.mem_append.mp hmem with hold | hnew
      · exact hs.apart c j hj hold
      · rw [List.mem_singleton.mp hnew] at hj
        obtain ⟨call', hcall'⟩ := hs.running c i hj
        exact hfree call' hcall'
  · cases h

/-- A job that is taken waits at its connection. -/
theorem jobsWait_take {c : κ} (hs : JobsWait s) (h : step cfg name s (.take c) = some t) :
    JobsWait t := by
  simp only [step] at h
  split at h
  · rename_i i rest hrunning hqueue
    rw [Option.some.injEq] at h
    subst h
    have hnodup := hs.nodup
    rw [hqueue, List.nodup_cons] at hnodup
    have hmem : ∀ j, j ∈ rest → j ∈ s.queue := by
      intro j hj
      rw [hqueue]
      exact List.mem_cons_of_mem _ hj
    have hhead : i ∈ s.queue := by
      rw [hqueue]
      exact List.mem_cons_self
    -- a job in hand is the one just taken, or was in hand before
    have hcases : ∀ c' j, j ∈ Function.update s.running c (some i) c' →
        (c' = c ∧ j = i) ∨ j ∈ s.running c' := by
      intro c' j hj
      by_cases hc : c' = c
      · rw [hc, Function.update_self, Option.mem_some_iff] at hj
        exact Or.inl ⟨hc, hj.symm⟩
      · rw [Function.update_of_ne hc] at hj
        exact Or.inr hj
    refine ⟨fun j hj => hs.queued j (hmem j hj), ?_, hnodup.2, ?_, ?_⟩
    · intro c' j hj
      rcases hcases c' j hj with hnew | hold
      · rw [hnew.2]
        exact hs.queued i hhead
      · exact hs.running c' j hold
    · intro c' j hj hrest
      rcases hcases c' j hj with hnew | hold
      · exact hnodup.1 (hnew.2 ▸ hrest)
      · exact hs.apart c' j hold (hmem j hrest)
    · intro c' c'' j hj hj'
      rcases hcases c' j hj with hnew | hold
      · rcases hcases c'' j hj' with hnew' | hold'
        · rw [hnew.1, hnew'.1]
        · rw [hnew.2] at hold'
          exact absurd hhead (hs.apart c'' i hold')
      · rcases hcases c'' j hj' with hnew' | hold'
        · rw [hnew'.2] at hold
          exact absurd hhead (hs.apart c' i hold)
        · exact hs.single c' c'' j hold hold'
  · cases h

/-- A job that is published waits no more. -/
theorem jobsWait_publish {c : κ} (hs : JobsWait s)
    (h : step cfg name s (.publish c) = some t) : JobsWait t := by
  simp only [step] at h
  split at h
  · cases h
  · rename_i i hrunning
    split at h
    · rename_i call hphase
      rw [Option.some.injEq] at h
      subst h
      have hhand : i ∈ s.running c := hrunning
      -- the job is nowhere else
      have hother : ∀ j, j ≠ i → (∃ call, s.phase j = .queued call) →
          ∃ call, Function.update s.phase i .published j = .queued call := by
        intro j hj hqueued
        obtain ⟨call', hcall'⟩ := hqueued
        exact ⟨call', by rw [Function.update_of_ne hj, hcall']⟩
      have hcases : ∀ c' j, j ∈ Function.update s.running c none c' →
          c' ≠ c ∧ j ∈ s.running c' := by
        intro c' j hj
        by_cases hc : c' = c
        · rw [hc, Function.update_self] at hj
          cases hj
        · rw [Function.update_of_ne hc] at hj
          exact ⟨hc, hj⟩
      refine ⟨?_, ?_, hs.nodup, ?_, ?_⟩
      · intro j hj
        refine hother j ?_ (hs.queued j hj)
        intro heq
        exact hs.apart c i hhand (heq ▸ hj)
      · intro c' j hj
        obtain ⟨hc, hold⟩ := hcases c' j hj
        refine hother j ?_ (hs.running c' j hold)
        intro heq
        exact hc (hs.single c' c j hold (heq ▸ hhand))
      · intro c' j hj
        exact hs.apart c' j (hcases c' j hj).2
      · intro c' c'' j hj hj'
        exact hs.single c' c'' j (hcases c' j hj).2 (hcases c'' j hj').2
    · cases h

/-- **One step** keeps the jobs in their places. -/
theorem jobsWait_step (s : State ι κ) (a : Action ι κ) (t : State ι κ) (hs : JobsWait s)
    (h : step cfg name s a = some t) : JobsWait t := by
  cases a with
  | update i =>
      simp only [step] at h
      split at h
      · rename_i value hphase
        rw [Option.some.injEq] at h
        subst h
        exact jobsWait_move _ _ hs (by rw [hphase]; intro call hcall; cases hcall)
      · rename_i hphase
        rw [Option.some.injEq] at h
        subst h
        exact jobsWait_move _ _ hs (by rw [hphase]; intro call hcall; cases hcall)
      · cases h
  | enqueue i => exact jobsWait_enqueue hs h
  | take c => exact jobsWait_take hs h
  | publish c => exact jobsWait_publish hs h
  | answer i =>
      simp only [step] at h
      split at h
      · rename_i hphase
        rw [Option.some.injEq] at h
        subst h
        exact jobsWait_move _ s.store hs
          (by rw [hphase]; intro call hcall; cases hcall)
      · cases h

/-- All requests at their start, no job anywhere. -/
def start (κ : Type*) (tasks : ι → Task) (store : StateStore) (retained : Option Bytes) :
    State ι κ :=
  ⟨store, [], fun _ => none, retained, fun i => .ready (tasks i)⟩

omit [DecidableEq ι] [DecidableEq κ] in
/-- At first no job waits. -/
theorem jobsWait_start (tasks : ι → Task) (store : StateStore) (retained : Option Bytes) :
    JobsWait (start κ tasks store retained) :=
  ⟨fun _ hi => absurd hi List.not_mem_nil, fun _ _ hi => absurd hi (Option.not_mem_none _),
    List.nodup_nil, fun _ _ hi => absurd hi (Option.not_mem_none _),
    fun _ _ _ hi => absurd hi (Option.not_mem_none _)⟩

/-- A connection with a job in hand can always publish it. -/
theorem publish_enabled {tasks : ι → Task} {store : StateStore} {retained : Option Bytes}
    {schedule : List (Action ι κ)} {c : κ} {i : ι}
    (hrun : runFrom (step cfg name) (start κ tasks store retained) schedule = some s)
    (hrunning : s.running c = some i) : (step cfg name s (.publish c)).isSome := by
  have hjobs := invariant_of_run jobsWait_step (jobsWait_start tasks store retained) hrun
  obtain ⟨call, hcall⟩ := hjobs.running c i hrunning
  simp [step, hrunning, hcall]

/-- **The mirror agrees with the store** once all requests are answered, if no
publish was outdated. -/
theorem mirrored_of_freshPublish (cfg : Config) (name : Bytes) (tasks : ι → Task)
    {store : StateStore} {retained : Option Bytes} (hretained : retained = mirrorOf name store)
    {schedule : List (Action ι κ)} {t : State ι κ}
    (hok : StepsMeet (step cfg name) (FreshPublish name) (start κ tasks store retained) schedule)
    (hrun : runFrom (step cfg name) (start κ tasks store retained) schedule = some t)
    (hdone : ∀ i, t.phase i = .answered) : t.retained = mirrorOf name t.store := by
  have hmirrored := invariant_of_guarded_run mirrored_step
    (show Mirrored name (start κ tasks store retained) from Or.inl hretained) hok hrun
  apply sink_eq_of_idle hmirrored
  intro i
  rw [hdone i]
  rfl

/-- Two writes of the name. -/
def twoPuts : Bool → Task
  | false => .put (Binary64.ofInt 1)
  | true => .put (Binary64.ofInt 2)

/-- The second update comes before the first publish, and the jobs are published
in the order of the updates, by different connections. -/
theorem mirrored_twoPuts : ∃ t,
    runFrom (step {} (ascii "m")) (start Bool twoPuts SortedMap.empty none)
      [.update false, .enqueue false, .update true, .enqueue true, .take true, .publish true,
        .take false, .publish false, .answer true, .answer false] = some t ∧
    t.retained = mirrorOf (ascii "m") t.store := by
  obtain ⟨t, hrun, hdone⟩ := exists_of_runFrom
    (step {} (ascii "m")) (start Bool twoPuts SortedMap.empty none)
    [.update false, .enqueue false, .update true, .enqueue true, .take true,
      .publish true, .take false, .publish false, .answer true, .answer false]
    (fun t => decide (t.phase false = .answered ∧ t.phase true = .answered))
    (by decide +kernel)
  rw [decide_eq_true_eq] at hdone
  refine ⟨t, hrun, mirrored_of_freshPublish {} (ascii "m") twoPuts (by decide +kernel)
    (by decide +kernel) hrun ?_⟩
  intro i
  cases i with
  | false => exact hdone.1
  | true => exact hdone.2

/-- **The mirror keeps an old value.**  The first write updates the store, the
second one updates and publishes, and the first one publishes after it; one
connection is enough. -/
theorem publish_overtaken :
    ¬ ∀ (tasks : Bool → Task) (schedule : List (Action Bool Unit)) (t : State Bool Unit),
      runFrom (step {} (ascii "m")) (start Unit tasks SortedMap.empty none) schedule = some t →
      (∀ i, t.phase i = .answered) → t.retained = mirrorOf (ascii "m") t.store := by
  intro hclaim
  obtain ⟨t, hrun, ht⟩ := exists_of_runFrom
    (step {} (ascii "m")) (start Unit twoPuts SortedMap.empty none)
    [.update false, .update true, .enqueue true, .take (), .publish (), .answer true,
      .enqueue false, .take (), .publish (), .answer false]
    (fun t => decide (t.phase false = .answered ∧ t.phase true = .answered ∧
      t.retained ≠ mirrorOf (ascii "m") t.store)) (by decide +kernel)
  rw [decide_eq_true_eq] at ht
  apply ht.2.2
  apply hclaim twoPuts _ t hrun
  intro i
  cases i with
  | false => exact ht.1
  | true => exact ht.2.1

end RetainedMirror

end Nshmqtt
