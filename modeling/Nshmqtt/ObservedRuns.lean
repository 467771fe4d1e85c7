import Mathlib.Tactic.Common

/-!
# Runs and what is seen of them

A machine takes an action and answers with an output and its next state, or cannot take
the action at all.  Two machines look alike from outside when related states answer each
action alike and go on to related states; then every schedule shows the same outputs on
both, or stops on both at the same action.

* `observe` collects the outputs of a schedule;
* `observe_lockstep` is the induction over schedules, once for all machines.
-/

namespace ObservedRuns

variable {State State' Action Output : Type*}

/-- The outputs of a schedule and the state after it; `none` when an action cannot be
taken. -/
def observe (step : State → Action → Option (Output × State)) :
    State → List Action → Option (List Output × State)
  | s, [] => some ([], s)
  | s, a :: rest => (step s a).bind fun first =>
      (observe step first.2 rest).map fun later => (first.1 :: later.1, later.2)

/-- The same output and related states, or nothing on both sides. -/
inductive Alike (R : State → State' → Prop) :
    Option (Output × State) → Option (Output × State') → Prop
  | stuck : Alike R none none
  | answered (output : Output) {s : State} {t : State'} (related : R s t) :
      Alike R (some (output, s)) (some (output, t))

variable {step : State → Action → Option (Output × State)}
  {step' : State' → Action → Option (Output × State')}
  {R : State → State' → Prop}

@[simp]
theorem observe_nil (s : State) : observe step s [] = some ([], s) :=
  rfl

/-- The first action is observed first. -/
theorem observe_cons (s : State) (a : Action) (rest : List Action) :
    observe step s (a :: rest) = (step s a).bind fun first =>
      (observe step first.2 rest).map fun later => (first.1 :: later.1, later.2) :=
  rfl

/-- Systems that are alike give the same output. -/
theorem Alike.outputs_eq {first : Option (Output × State)} {second : Option (Output × State')}
    (h : Alike R first second) : first.map Prod.fst = second.map Prod.fst := by
  cases h with
  | stuck => rfl
  | answered output related => rfl

/-- Related machines show the same of one schedule. -/
theorem observe_alike (matched : ∀ s t a, R s t → Alike R (step s a) (step' t a))
    {s : State} {t : State'} (h : R s t) (schedule : List Action) :
    Alike R (observe step s schedule) (observe step' t schedule) := by
  induction schedule generalizing s t with
  | nil => exact .answered [] h
  | cons a rest ih =>
      have hstep := matched s t a h
      rw [observe_cons, observe_cons]
      generalize step s a = first at hstep ⊢
      generalize step' t a = second at hstep ⊢
      cases hstep with
      | stuck => exact .stuck
      | @answered output u v related =>
          have hrest := ih related
          simp only [Option.bind_some]
          generalize observe step u rest = later at hrest ⊢
          generalize observe step' v rest = later' at hrest ⊢
          cases hrest with
          | stuck => exact .stuck
          | answered outputs related' => exact .answered (output :: outputs) related'

/-- **Lockstep.**  Machines that answer each action alike show the same outputs, and stop
at the same action if they stop. -/
theorem observe_lockstep (matched : ∀ s t a, R s t → Alike R (step s a) (step' t a))
    {s : State} {t : State'} (h : R s t) (schedule : List Action) :
    (observe step s schedule).map Prod.fst = (observe step' t schedule).map Prod.fst :=
  (observe_alike matched h schedule).outputs_eq

end ObservedRuns
