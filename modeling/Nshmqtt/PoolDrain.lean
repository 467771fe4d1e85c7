import Nshmqtt.ThreadPool

/-!
# Draining the thread pool

When nobody calls `submit` any more, every step of the workers and of `shutdown` lowers a rank:
a worker can only go on towards its exit, each connection in the queue is taken once, and the
workers are notified once.  And as long as `shutdown` has not returned, some step is enabled:
whoever owns the mutex can go on, and when nobody owns it, whoever waits for it can take it.

Two things may come in between.  `wait` may wake up although nobody notified it, which raises the
rank by the way back to the test; and a call of the handler may never return, so the steps out of
a handler are told apart from the others.

* `rank_transition`, `rank_spurious` : what a step and a spurious wakeup do to the rank;
* `exists_step` : a step is enabled, if need be the end of a call of the handler.
-/

namespace Nshmqtt

open Tally

namespace ThreadPool

variable {κ ι Fd : Type*}

/-- The mutex is owned by somebody who will release it, and a worker that is about to serve
finds something to do. -/
structure Owned (s : State κ ι Fd) : Prop where
  worker : ∀ w, s.owner = some (.worker w) → (s.worker w).holds = true
  submitter : ∀ i, s.owner = some (.submitter i) → (s.submitter i).holds = true
  shutdown : s.owner = some .shutdown → s.shutdown = .holding
  serving : ∀ w, s.worker w = .serving → s.stop = true ∨ s.queue ≠ []

variable {s t : State κ ι Fd}

theorem owned_start : Owned (start κ ι Fd) := by
  constructor <;> simp [start]

@[grind =]
theorem wake_eq_serving {phase : Worker Fd} : phase.wake = .serving ↔ phase = .serving := by
  cases phase <;> simp [Worker.wake]

variable [DecidableEq κ] [DecidableEq ι]

/-- The mutex has one owner, who is where a thread has it. -/
theorem owned_transition (hs : Inv s) (ho : Owned s) (h : Transition s t) : Owned t := by
  have hworker := hs.workerOwns
  have hsubmitter := hs.submitterOwns
  have hshutdown := hs.shutdownOwns
  have howner := ho.worker
  have hcaller := ho.submitter
  have hstopper := ho.shutdown
  have hserving := ho.serving
  cases h <;> refine ⟨?_, ?_, ?_, ?_⟩ <;>
    simp only [State.moveWorker, State.moveSubmitter, Function.update_apply] <;>
    grind [Worker.holds, Submitter.holds]

/-- What a worker has before it, up to where it blocks or leaves. -/
def Worker.rank : Worker Fd → Nat
  | .handling _ => 4
  | .locking => 3
  | .woken => 3
  | .testing => 2
  | .blocking => 1
  | .serving => 1
  | .blocked => 0
  | .exited => 0

/-- What `shutdown` has before it, with the `workers` that it may wake. -/
def Shutdown.rank (workers : Nat) : Shutdown → Nat
  | .idle => 3 * workers + 5
  | .entering => 3 * workers + 4
  | .holding => 3 * workers + 3
  | .flagged => 3 * workers + 2
  | .joining => 1
  | .returned => 0

variable [Fintype κ]

def State.rank (s : State κ ι Fd) : Nat :=
  tally Worker.rank s.worker + 4 * s.queue.length + s.shutdown.rank (Fintype.card κ)

omit [DecidableEq κ] in
/-- All blocked workers are woken at once. -/
theorem tally_rank_wake (worker : κ → Worker Fd) :
    tally Worker.rank (fun w => (worker w).wake) ≤
      tally Worker.rank worker + 3 * Fintype.card κ := by
  have hwake : ∀ phase : Worker Fd, phase.wake.rank ≤ phase.rank + 3 := by
    intro phase
    cases phase <;> simp [Worker.wake, Worker.rank]
  calc tally Worker.rank (fun w => (worker w).wake)
      ≤ ∑ w, ((worker w).rank + 3) := Finset.sum_le_sum fun w _ => hwake (worker w)
    _ = tally Worker.rank worker + 3 * Fintype.card κ := by
        rw [Finset.sum_add_distrib, Finset.sum_const, Finset.card_univ, Nat.nsmul_eq_mul,
          Nat.mul_comm]
        rfl

omit [DecidableEq ι] in
/-- Worker `w` goes on, which changes the rank by its share. -/
theorem rank_moveWorker_lt {s' : State κ ι Fd} {w : κ} {old next : Worker Fd} {bound : Nat}
    (hphase : s'.worker w = old) (hrank : s'.rank + next.rank < bound + old.rank) :
    (s'.moveWorker w next).rank < bound := by
  have hmove := tally_update Worker.rank s'.worker w next
  rw [hphase] at hmove
  simp only [State.rank, State.moveWorker] at hrank ⊢
  omega

/-- **Without calls of `submit` every step lowers the rank.** -/
theorem rank_transition (ho : Owned s) (hidle : ∀ i, s.submitter i = .idle)
    (hcalls : t.submitter = s.submitter) (h : Transition s t) : t.rank < s.rank := by
  cases h with
  | lock w phase free =>
      rcases phase with phase | phase
      · exact rank_moveWorker_lt phase (Nat.add_lt_add_left (by simp [Worker.rank]) s.rank)
      · exact rank_moveWorker_lt phase (Nat.add_lt_add_left (by simp [Worker.rank]) s.rank)
  | ready w phase | unready w phase | block w phase | exit w phase | handle w fd phase =>
      exact rank_moveWorker_lt phase (Nat.add_lt_add_left (by simp [Worker.rank]) s.rank)
  | again w phase running empty =>
      rcases ho.serving w phase with hstop | hqueue
      · rw [running] at hstop
        cases hstop
      · exact absurd empty hqueue
  | pop w fd rest phase front =>
      refine rank_moveWorker_lt phase ?_
      simp only [State.rank, front, List.length_cons, Worker.rank]
      omega
  | call i fd phase =>
      have hcall : (s.moveSubmitter i (.entering fd)).submitter i = s.submitter i :=
        congrFun hcalls i
      simp [phase, State.moveSubmitter] at hcall
  | enter i fd phase | close i fd late phase | push i fd late phase | notify i chosen phase
  | notifyNone i phase =>
      rw [hidle i] at phase
      cases phase
  | begin phase | acquire phase | repeated phase | set phase | join phase =>
      simp only [State.rank, phase, Shutdown.rank]
      omega
  | notifyAll phase =>
      have hwake := tally_rank_wake s.worker
      simp only [State.rank, phase, Shutdown.rank]
      omega

omit [DecidableEq ι] [Fintype κ] in
/-- A worker that owns the mutex, or that waits for it while it is free, can go on. -/
theorem exists_workerStep {w : κ}
    (h : (s.worker w).holds = true ∨ s.owner = none ∧ s.worker w ≠ .blocked ∧
      s.worker w ≠ .exited) : ∃ t, workerStep s w = some t := by
  unfold workerStep
  cases hphase : s.worker w with
  | locking | woken =>
      rcases h with hholds | ⟨hfree, -, -⟩
      · rw [hphase] at hholds
        cases hholds
      · simp only [hfree, Option.isNone_none, if_true]
        exact ⟨_, rfl⟩
  | testing | blocking | handling => exact ⟨_, rfl⟩
  | serving => cases s.queue <;> exact ⟨_, rfl⟩
  | blocked | exited => simp [hphase, Worker.holds] at h

omit [DecidableEq κ] [DecidableEq ι] in
/-- While the mutex is free, `shutdown` can go on unless it waits for a worker. -/
theorem exists_shutdownStep (hs : Inv s) (hfree : s.owner = none)
    (hshutdown : s.shutdown ≠ .returned)
    (hjoin : s.shutdown = .joining → ∀ w, s.worker w = .exited) :
    ∃ t, shutdownStep s = some t := by
  unfold shutdownStep
  cases hphase : s.shutdown with
  | idle | flagged => exact ⟨_, rfl⟩
  | entering =>
      simp only [hfree, Option.isNone_none, if_true]
      exact ⟨_, rfl⟩
  | holding =>
      have howner := hs.shutdownOwns hphase
      rw [hfree] at howner
      cases howner
  | joining =>
      have hexited : ∀ w, (s.worker w).isExited = true :=
        fun w => isExited_iff.mpr (hjoin hphase w)
      simp only [hexited, implies_true, if_true]
      exact ⟨_, rfl⟩
  | returned => exact absurd hphase hshutdown

omit [DecidableEq ι] in
/-- **As long as `shutdown` has not returned, a step is enabled**, or a worker is in the
handler. -/
theorem exists_step (hs : Inv s) (ho : Owned s) (hidle : ∀ i, s.submitter i = .idle)
    (hshutdown : s.shutdown ≠ .returned) :
    (∃ t, shutdownStep s = some t) ∨
      (∃ w t, (∀ fd, s.worker w ≠ .handling fd) ∧ workerStep s w = some t) ∨
      ∃ w fd, s.worker w = .handling fd := by
  cases howner : s.owner with
  | some party =>
      cases party with
      | worker w =>
          have hholds := ho.worker w howner
          obtain ⟨t, ht⟩ := exists_workerStep (.inl hholds)
          refine .inr (.inl ⟨w, t, fun fd hphase => ?_, ht⟩)
          rw [hphase] at hholds
          cases hholds
      | submitter i =>
          have hholds := ho.submitter i howner
          rw [hidle i] at hholds
          cases hholds
      | shutdown =>
          have hphase := ho.shutdown howner
          unfold shutdownStep
          rw [hphase]
          cases s.stop <;> exact .inl ⟨_, rfl⟩
  | none =>
      by_cases hexited : ∀ w, s.worker w = .exited
      · exact .inl (exists_shutdownStep hs howner hshutdown fun _ => hexited)
      · by_cases hjoin : s.shutdown = .joining
        · -- `shutdown` waits for a worker, which nobody has left blocked
          obtain ⟨w, hw⟩ := not_forall.mp hexited
          have hawake := hs.awake (by rw [hjoin]; rfl) w
          by_cases hhandler : ∃ fd, s.worker w = .handling fd
          · exact .inr (.inr ⟨w, hhandler⟩)
          · obtain ⟨t, ht⟩ := exists_workerStep (.inr ⟨howner, hawake, hw⟩)
            exact .inr (.inl ⟨w, t, not_exists.mp hhandler, ht⟩)
        · exact .inl (exists_shutdownStep hs howner hshutdown fun h => absurd h hjoin)

section Spurious

variable {w : κ}

/-- `wait` wakes up although nobody notified the worker. -/
def spuriousStep (s : State κ ι Fd) (w : κ) : Option (State κ ι Fd) :=
  match s.worker w with
  | .blocked => some (s.moveWorker w .woken)
  | _ => none

omit [DecidableEq ι] [Fintype κ] in
/-- A spurious wakeup is of a blocked worker. -/
theorem spuriousStep_cases (h : spuriousStep s w = some t) :
    s.worker w = .blocked ∧ t = s.moveWorker w .woken := by
  unfold spuriousStep at h
  split at h
  · exact ⟨‹_›, (Option.some.inj h).symm⟩
  · cases h

omit [DecidableEq ι] [Fintype κ] in
/-- A worker that wakes up owns nothing and has tested nothing. -/
theorem inv_spurious (hs : Inv s) (h : spuriousStep s w = some t) : Inv t := by
  obtain ⟨hphase, rfl⟩ := spuriousStep_cases h
  have hworker := hs.workerOwns
  have hidle := hs.idle
  have hexits := hs.exits
  have hawake := hs.awake
  have hjoined := hs.joined
  refine ⟨?_, hs.submitterOwns, hs.shutdownOwns, hs.set, hs.seen, ?_, ?_, ?_, ?_⟩ <;>
    simp only [State.moveWorker, Function.update_apply] <;> grind [Worker.holds]

omit [DecidableEq ι] [Fintype κ] in
/-- A worker that wakes up takes no mutex. -/
theorem owned_spurious (ho : Owned s) (h : spuriousStep s w = some t) : Owned t := by
  obtain ⟨hphase, rfl⟩ := spuriousStep_cases h
  have howner := ho.worker
  have hserving := ho.serving
  refine ⟨?_, ho.submitter, ho.shutdown, ?_⟩ <;>
    simp only [State.moveWorker, Function.update_apply] <;> grind [Worker.holds]

omit [DecidableEq ι] in
/-- It has no connection in hand, before or after. -/
theorem accounts_spurious [Fintype ι] [DecidableEq Fd] (ha : Accounts s)
    (h : spuriousStep s w = some t) : Accounts t := by
  obtain ⟨hphase, rfl⟩ := spuriousStep_cases h
  have hnone : ∀ fd, (Worker.woken : Worker Fd).inHand fd = (s.worker w).inHand fd := by
    intro fd
    rw [hphase]
    rfl
  exact ha.moveWorker hnone s.owner

omit [DecidableEq ι] in
/-- The way from the wakeup to the next `wait`. -/
theorem rank_spurious (h : spuriousStep s w = some t) : t.rank = s.rank + 3 := by
  obtain ⟨hphase, rfl⟩ := spuriousStep_cases h
  have hmove := tally_update Worker.rank s.worker w .woken
  rw [hphase] at hmove
  simp only [Worker.rank] at hmove
  simp only [State.rank, State.moveWorker]
  omega

end Spurious

end ThreadPool

end Nshmqtt
