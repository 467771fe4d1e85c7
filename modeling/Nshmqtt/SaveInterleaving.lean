import Nshmqtt.MessageHandler
import Nshmqtt.WriteBehind
import Mathlib.Logic.Function.Basic

/-!
# Concurrent writers of the store

Every writer (an HTTP worker in `handle_metric_write` or
`handle_metric_delete`, or the subscribe worker in the message handler) updates
the store under its mutex and then saves it.  `save` takes its snapshot under
the mutex and replaces the file later, outside it, so the replacements of two
writers need not come in the order of their snapshots.

Even with an atomic replacement an older snapshot can overwrite a newer file,
and the last update is then missing from disk although every writer has
finished.  If no replacement does that, the file agrees with the store.
-/

namespace Nshmqtt

open ByteStrings TransitionRuns WriteBehind StateStore

namespace SaveInterleaving

/-- What one writer was called for. -/
inductive Task
  | metricWrite (name : Bytes) (value : Double)
  | metricDelete (name : Bytes)
  | message (topic payload : Bytes)

/-- The point a writer has reached. -/
inductive Phase
  /-- `set` calls still to make. -/
  | setting (rest : List (Bytes × Double))
  /-- About to call `remove`. -/
  | removing (name : Bytes)
  /-- At the entry of `save`, before the snapshot. -/
  | saving
  /-- In `save`, with the text of the snapshot taken. -/
  | replacing (text : Bytes)
  | finished
  deriving DecidableEq

/-- The store is saved only where persistence is on. -/
def afterUpdate (cfg : Config) : Phase := if cfg.stateEnabled then .saving else .finished

def Task.start (cfg : Config) : Task → Phase
  | .metricWrite name value => .setting [(name, value)]
  | .metricDelete name => .removing name
  | .message topic payload =>
      match messageUpdates cfg topic payload with
      | some leaves => .setting leaves
      | none => .finished

variable {ι : Type*}

/-- The store, the contents of the state file and the point of every writer. -/
structure State (ι : Type*) where
  store : StateStore
  file : Option Bytes
  phase : ι → Phase

variable [DecidableEq ι]

def State.move (s : State ι) (i : ι) (phase : Phase) : State ι :=
  { s with phase := Function.update s.phase i phase }

/-- The next step of writer `i`. -/
def next (cfg : Config) (s : State ι) (i : ι) : Option (State ι) :=
  match s.phase i with
  | .setting [] => some (s.move i (afterUpdate cfg))
  | .setting (leaf :: rest) =>
      some ({ s with store := s.store.set leaf.1 leaf.2 }.move i (.setting rest))
  | .removing name =>
      let (store, existed) := s.store.remove name
      some ({ s with store := store }.move i (if existed then afterUpdate cfg else .finished))
  | .saving => some (s.move i (.replacing (saveText s.store.snapshot)))
  | .replacing text => some ({ s with file := some text }.move i .finished)
  | .finished => none

/-- Every step is one of these five. -/
theorem next_cases {cfg : Config} {s t : State ι} {i : ι} (h : next cfg s i = some t) :
    (s.phase i = .setting [] ∧ t = s.move i (afterUpdate cfg)) ∨
    (∃ leaf rest, s.phase i = .setting (leaf :: rest) ∧
      t = { s with store := s.store.set leaf.1 leaf.2 }.move i (.setting rest)) ∨
    (∃ name, s.phase i = .removing name ∧
      t = { s with store := (s.store.remove name).1 }.move i
        (if (s.store.remove name).2 then afterUpdate cfg else .finished)) ∨
    (s.phase i = .saving ∧ t = s.move i (.replacing (saveText s.store.snapshot))) ∨
    (∃ text, s.phase i = .replacing text ∧
      t = { s with file := some text }.move i .finished) := by
  unfold next at h
  cases hphase : s.phase i with
  | setting rest =>
      cases rest with
      | nil => simp_all
      | cons leaf rest => simp_all
  | removing name => simp_all
  | saving => simp_all
  | replacing text => simp_all
  | finished => simp [hphase] at h

/-- The text of the state file; a missing file counts as the empty object. -/
def contents (file : Option Bytes) : Bytes := file.getD (saveText [])

/-- The file parses to exactly the names of the store, each with the text of its
value. -/
def Persisted (file : Option Bytes) (store : StateStore) : Prop :=
  tokenizeFlatObject (contents file) = some (texts store) ∧
    parseFlatNumberObject (contents file) =
      some (store.mapValues fun v => (reread v).getD v)

instance (file : Option Bytes) (store : StateStore) : Decidable (Persisted file store) :=
  inferInstanceAs (Decidable (_ ∧ _))

/-- Every stored value can be read back from its text. -/
def Rereadable (store : StateStore) : Prop :=
  ∀ item ∈ store.entries, (reread item.2).isSome

/-- The file holds the texts of the store. -/
def view (store : StateStore) : Option (List (Bytes × Bytes)) := some (texts store)

/-- A file agrees with the store when its tokens are the store's texts and each
of these can be read back. -/
theorem persisted_iff {file : Option Bytes} {store : StateStore} :
    Persisted file store ↔
      tokenizeFlatObject (contents file) = view store ∧ Rereadable store := by
  constructor
  · intro h
    have hparse := h.2
    unfold parseFlatNumberObject at hparse
    rw [h.1] at hparse
    have hread := (foldlM_parseDouble_isSome (texts store) _).mp (Option.isSome_of_eq_some hparse)
    exact ⟨h.1, List.forall_mem_map.mp hread⟩
  · intro h
    refine ⟨h.1, ?_⟩
    have hsaved := parseFlatNumberObject_saveText h.2
    unfold parseFlatNumberObject at hsaved ⊢
    rw [snapshot, tokenizeFlatObject_saveText] at hsaved
    rw [h.1]
    exact hsaved

/-- What a writer still owes the file. -/
def stage : Phase → Stage (Option (List (Bytes × Bytes)))
  | .setting _ => .dirty
  | .removing _ => .idle
  | .saving => .dirty
  | .replacing text => .holding (tokenizeFlatObject text)
  | .finished => .idle

/-- The condition on the step of a writer at a given point: a value is stored
only if its text can be read back, and a replacement does not put an outdated
snapshot over a file that is up to date. -/
def InOrderAt (store : StateStore) (file : Option Bytes) : Phase → Prop
  | .setting (leaf :: _) => (reread leaf.2).isSome
  | .replacing text =>
      FreshFlush view store (tokenizeFlatObject (contents file)) (tokenizeFlatObject text)
  | _ => True

instance (store : StateStore) (file : Option Bytes) :
    ∀ phase, Decidable (InOrderAt store file phase)
  | .setting (leaf :: _) => inferInstanceAs (Decidable ((reread leaf.2).isSome = true))
  | .replacing text => inferInstanceAs (Decidable (
      tokenizeFlatObject (contents file) = view store → tokenizeFlatObject text = view store))
  | .setting [] => .isTrue trivial
  | .removing _ => .isTrue trivial
  | .saving => .isTrue trivial
  | .finished => .isTrue trivial

def InOrder (s : State ι) (i : ι) : Prop := InOrderAt s.store s.file (s.phase i)

instance (s : State ι) (i : ι) : Decidable (InOrder s i) :=
  inferInstanceAs (Decidable (InOrderAt _ _ _))

/-- The invariant of a run whose steps are in order. -/
structure Inv (s : State ι) : Prop where
  covered : Covered view s.store (tokenizeFlatObject (contents s.file))
    fun i => stage (s.phase i)
  rereadable : Rereadable s.store

/-- A value that is read back keeps the store so. -/
theorem rereadable_set {store : StateStore} (h : Rereadable store) (name : Bytes) {v : Double}
    (hv : (reread v).isSome) : Rereadable (store.set name v) := by
  intro item hitem
  obtain ⟨name', v'⟩ := item
  rw [SortedMap.mem_entries_iff, StateStore.set, SortedMap.lookup_insert] at hitem
  split_ifs at hitem with heq
  · exact Option.some.inj hitem ▸ hv
  · exact h (name', v') ((SortedMap.mem_entries_iff _ _ _).mpr hitem)

theorem rereadable_remove {store : StateStore} (h : Rereadable store) (name : Bytes) :
    Rereadable (store.remove name).1 := fun item hitem =>
  h item (List.mem_filter.mp hitem).1

/-- The writer that moves is in its next stage. -/
theorem stage_move_self (s : State ι) (i : ι) (phase : Phase) :
    stage ((s.move i phase).phase i) = stage phase := by
  simp [State.move]

theorem stage_move_of_ne (s : State ι) {i j : ι} (phase : Phase) (h : j ≠ i) :
    stage ((s.move i phase).phase j) = stage (s.phase j) := by
  simp [State.move, h]

/-- One step in order keeps the invariant. -/
theorem inv_next {cfg : Config} (hcfg : cfg.stateEnabled = true) (s : State ι) (i : ι)
    (t : State ι) (hs : Inv s) (hok : InOrder s i) (h : next cfg s i = some t) : Inv t := by
  have hsave : afterUpdate cfg = .saving := by simp [afterUpdate, hcfg]
  unfold InOrder at hok
  -- the cases are the five steps of a writer
  rcases next_cases h with ⟨hphase, ht⟩ | ⟨leaf, rest, hphase, ht⟩ | ⟨name, hphase, ht⟩ |
    ⟨hphase, ht⟩ | ⟨text, hphase, ht⟩
  · -- the updates are made: the save is still owed
    subst ht
    refine ⟨covered_of_dirty (i := i) ?_, hs.rereadable⟩
    rw [stage_move_self, hsave]
    rfl
  · subst ht
    rw [hphase] at hok
    refine ⟨covered_of_dirty (i := i) ?_, rereadable_set hs.rereadable _ hok⟩
    rw [stage_move_self]
    rfl
  · subst ht
    refine ⟨?_, rereadable_remove hs.rereadable name⟩
    cases hexisted : (s.store.remove name).2 with
    | true =>
        apply covered_of_dirty (i := i)
        rw [if_pos rfl, stage_move_self, hsave]
        rfl
    | false =>
        -- nothing was removed, so nothing is owed
        rw [remove_absent hexisted]
        apply covered_of_stages hs.covered
        intro j hj
        have hne : j ≠ i := by
          intro heq
          rw [heq, hphase] at hj
          exact hj rfl
        exact stage_move_of_ne _ _ hne
  · subst ht
    refine ⟨covered_of_capture (i := i) ?_, hs.rereadable⟩
    rw [stage_move_self, stage, snapshot, tokenizeFlatObject_saveText]
    rfl
  · subst ht
    rw [hphase] at hok
    refine ⟨?_, hs.rereadable⟩
    have hholding : stage (s.phase i) = .holding (tokenizeFlatObject text) := by
      rw [hphase]
      rfl
    exact covered_of_flush hs.covered hholding hok fun j hj => stage_move_of_ne _ _ hj

/-- All writers at their start. -/
def State.start (cfg : Config) (tasks : ι → Task) (store : StateStore) (file : Option Bytes) :
    State ι := ⟨store, file, fun i => (tasks i).start cfg⟩

/-- **The saved file agrees with the store** once all writers have finished, if
every step of the run was in order. -/
theorem persisted_of_inOrder {cfg : Config} (hcfg : cfg.stateEnabled = true)
    (tasks : ι → Task) {store : StateStore} {file : Option Bytes} (hfile : Persisted file store)
    {schedule : List ι} {t : State ι}
    (hok : StepsMeet (next cfg) InOrder (State.start cfg tasks store file) schedule)
    (hrun : runFrom (next cfg) (State.start cfg tasks store file) schedule = some t)
    (hdone : ∀ i, t.phase i = .finished) : Persisted t.file t.store := by
  have hinit : Inv (State.start cfg tasks store file) :=
    ⟨Or.inl (persisted_iff.mp hfile).1, (persisted_iff.mp hfile).2⟩
  have hinv := invariant_of_guarded_run (inv_next hcfg) hinit hok hrun
  refine persisted_iff.mpr ⟨?_, hinv.rereadable⟩
  apply sink_eq_of_idle hinv.covered
  intro i
  rw [hdone i]
  rfl

/-- Two writers on different names. -/
def twoWrites : Bool → Task
  | false => .metricWrite (ascii "a") (Binary64.ofInt 1)
  | true => .metricWrite (ascii "b") (Binary64.ofInt 2)

/-- Both writers take their snapshots before the first replacement, and the
replacements come in the order of the snapshots. -/
theorem persisted_twoWrites : ∃ t,
    runFrom (next {}) (State.start {} twoWrites SortedMap.empty none)
      [false, true, false, true, false, true, false, true] = some t ∧
    Persisted t.file t.store := by
  obtain ⟨t, hrun, hdone⟩ := exists_of_runFrom
    (next {}) (State.start {} twoWrites SortedMap.empty none)
    [false, true, false, true, false, true, false, true]
    (fun t => decide (t.phase false = .finished ∧ t.phase true = .finished))
    (by decide +kernel)
  rw [decide_eq_true_eq] at hdone
  refine ⟨t, hrun, persisted_of_inOrder rfl twoWrites (by decide +kernel) (by decide +kernel)
    hrun ?_⟩
  intro i
  cases i with
  | false => exact hdone.1
  | true => exact hdone.2

/-- **An update is lost.**  The first writer takes its snapshot, the second one
updates and saves, and the first one then replaces the file by its older
snapshot: both have finished and the second name is not on disk. -/
theorem save_loses_update :
    ¬ ∀ (tasks : Bool → Task) (schedule : List Bool) (t : State Bool),
      runFrom (next {}) (State.start {} tasks SortedMap.empty none) schedule = some t →
      (∀ i, t.phase i = .finished) → Persisted t.file t.store := by
  intro hclaim
  obtain ⟨t, hrun, ht⟩ := exists_of_runFrom
    (next {}) (State.start {} twoWrites SortedMap.empty none)
    [false, false, false, true, true, true, true, false]
    (fun t => decide (t.phase false = .finished ∧ t.phase true = .finished ∧
      ¬ Persisted t.file t.store))
    (by decide +kernel)
  rw [decide_eq_true_eq] at ht
  apply ht.2.2
  apply hclaim twoWrites _ t hrun
  intro i
  cases i with
  | false => exact ht.1
  | true => exact ht.2.1

end SaveInterleaving

end Nshmqtt
