import Mathlib.Tactic.Common

/-!
# Runs of partial step functions

A component is a partial step function: `step s a` is the state after action
`a`, or `none` when `a` is not enabled in `s`.  An interleaving of several
parties is a list of actions, so a statement about every interleaving is a
statement about every list on which the run succeeds.  A prefix of a run is a
run, hence a fact about the last state of every run is a fact about every
reachable state.
-/

namespace TransitionRuns

variable {State Action : Type*}

/-- Execute a schedule of actions; `none` as soon as one is not enabled. -/
def runFrom (step : State → Action → Option State) :
    State → List Action → Option State
  | s, [] => some s
  | s, a :: rest => (step s a).bind fun t => runFrom step t rest

/-- Every action of the schedule meets `ok` in the state where it is taken. -/
def StepsMeet (step : State → Action → Option State)
    (ok : State → Action → Prop) : State → List Action → Prop
  | _, [] => True
  | s, a :: rest => ok s a ∧ ∀ t, step s a = some t → StepsMeet step ok t rest

variable {step : State → Action → Option State}

@[simp]
theorem runFrom_nil (s : State) : runFrom step s [] = some s :=
  rfl

/-- Expose the first transition of a nonempty run. -/
theorem runFrom_cons {s t : State} {a : Action} {rest : List Action} :
    runFrom step s (a :: rest) = some t ↔
      ∃ u, step s a = some u ∧ runFrom step u rest = some t := by
  simp [runFrom, Option.bind_eq_some_iff]

/-- Runs compose at a reached state. -/
theorem runFrom_append {s t : State} {first rest : List Action} :
    runFrom step s (first ++ rest) = some t ↔
      ∃ u, runFrom step s first = some u ∧ runFrom step u rest = some t := by
  induction first generalizing s with
  | nil => simp
  | cons a first ih =>
      simp only [List.cons_append, runFrom_cons, ih]
      constructor
      · intro h
        obtain ⟨u, hu, v, hv, hw⟩ := h
        exact ⟨v, ⟨u, hu, hv⟩, hw⟩
      · intro h
        obtain ⟨v, ⟨u, hu, hv⟩, hw⟩ := h
        exact ⟨u, hu, v, hv, hw⟩

/-- **Guarded invariant rule.**  A property that every step meeting `ok`
preserves holds at the end of every run whose steps all meet `ok`. -/
theorem invariant_of_guarded_run {ok : State → Action → Prop}
    {invariant : State → Prop}
    (preserved : ∀ s a t, invariant s → ok s a → step s a = some t → invariant t)
    {s t : State} {schedule : List Action} (hs : invariant s)
    (hok : StepsMeet step ok s schedule)
    (hrun : runFrom step s schedule = some t) : invariant t := by
  induction schedule generalizing s with
  | nil => exact Option.some.inj hrun ▸ hs
  | cons a rest ih =>
      obtain ⟨u, hstep, hrest⟩ := runFrom_cons.mp hrun
      exact ih (preserved s a u hs hok.1 hstep) (hok.2 u hstep) hrest

/-- **Invariant rule.**  A property that every step preserves holds at the end
of every run. -/
theorem invariant_of_run {invariant : State → Prop}
    (preserved : ∀ s a t, invariant s → step s a = some t → invariant t)
    {s t : State} {schedule : List Action} (hs : invariant s)
    (hrun : runFrom step s schedule = some t) : invariant t := by
  induction schedule generalizing s with
  | nil => exact Option.some.inj hrun ▸ hs
  | cons a rest ih =>
      obtain ⟨u, hstep, hrest⟩ := runFrom_cons.mp hrun
      exact ih (preserved s a u hs hstep) hrest

/-- **Ranking rule.**  When the steps that count lower a rank, and any other raises it by at
most `credit`, no run has more steps that count than the rank of its first state and the credit
of the others allow. -/
theorem countP_add_rank_le {invariant : State → Prop} (rank : State → Nat)
    (counts : Action → Bool) (credit : Nat)
    (preserved : ∀ s a t, invariant s → step s a = some t → invariant t)
    (lowers : ∀ s a t, invariant s → step s a = some t → counts a = true → rank t < rank s)
    (raises : ∀ s a t, invariant s → step s a = some t → counts a = false →
      rank t ≤ rank s + credit)
    {s t : State} {schedule : List Action} (hs : invariant s)
    (hrun : runFrom step s schedule = some t) :
    schedule.countP counts + rank t ≤
      rank s + credit * schedule.countP fun a => !counts a := by
  induction schedule generalizing s with
  | nil =>
      cases Option.some.inj hrun
      simp
  | cons a rest ih =>
      obtain ⟨u, hstep, hrest⟩ := runFrom_cons.mp hrun
      have hlater := ih (preserved s a u hs hstep) hrest
      cases hcounts : counts a with
      | true =>
          have hlower := lowers s a u hs hstep hcounts
          rw [List.countP_cons_of_pos hcounts, List.countP_cons_of_neg (by simp [hcounts])]
          omega
      | false =>
          have hraise := raises s a u hs hstep hcounts
          rw [List.countP_cons_of_neg (by simp [hcounts]), List.countP_cons_of_pos (by simp [hcounts]),
            Nat.mul_add, Nat.mul_one]
          omega

instance decidableStepsMeet {ok : State → Action → Prop} [∀ s a, Decidable (ok s a)] :
    ∀ (s : State) (schedule : List Action), Decidable (StepsMeet step ok s schedule)
  | _, [] => .isTrue trivial
  | s, a :: rest =>
      match h : step s a with
      | none => decidable_of_iff (ok s a) (by simp [StepsMeet, h])
      | some t =>
          have : Decidable (StepsMeet step ok t rest) := decidableStepsMeet t rest
          decidable_of_iff (ok s a ∧ StepsMeet step ok t rest) (by simp [StepsMeet, h])

/-- A property that a run of a given schedule ends in, by evaluation. -/
theorem exists_of_runFrom (step : State → Action → Option State) (s : State)
    (schedule : List Action) (p : State → Bool) (h : (runFrom step s schedule).any p = true) :
    ∃ t, runFrom step s schedule = some t ∧ p t = true := by
  cases hrun : runFrom step s schedule with
  | none => simp [hrun] at h
  | some t => exact ⟨t, rfl, by simpa [hrun] using h⟩

end TransitionRuns
