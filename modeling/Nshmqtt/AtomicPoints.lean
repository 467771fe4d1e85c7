import Nshmqtt.TransitionRuns
import Mathlib.Data.List.Nodup
import Mathlib.Logic.Function.Basic

/-!
# Operations that take effect at one point

Each party calls one operation on a shared object: it is invoked, takes effect in one
atomic step some time later, and returns with its result some time after that.  The steps
of different parties interleave in any way.  Then the order of the atomic steps explains
what everybody saw: executed one after the other in this order, the operations have the
results that were returned and lead to the state that was reached, and an operation that
returned before another was invoked comes before it.

* `point_spec`: the order explains the results and the state of every run;
* `before_of_effect`: the order agrees with real time.
-/

namespace AtomicPoints

open TransitionRuns

variable {Shared Op Res Id : Type*}

/-- How far one party is. -/
inductive Phase (Op Res : Type*)
  | idle
  | invoked (op : Op)
  /-- Took effect. -/
  | acted (op : Op) (res : Res)
  | returned (op : Op) (res : Res)

inductive Action (Id Op : Type*)
  | invoke (id : Id) (op : Op)
  | act (id : Id)
  | finish (id : Id)

/-- One operation with the party that called it and its result. -/
structure Point (Id Op Res : Type*) where
  id : Id
  op : Op
  res : Res

structure State (Shared Op Res Id : Type*) where
  shared : Shared
  phase : Id → Phase Op Res
  /-- The operations in the order in which they took effect. -/
  order : List (Point Id Op Res)

/-- The operation and the result of a party that took effect. -/
def Phase.effect : Phase Op Res → Option (Op × Res)
  | .acted op res | .returned op res => some (op, res)
  | _ => none

/-- Party `id` goes on to its next phase. -/
def State.move [DecidableEq Id] (s : State Shared Op Res Id) (id : Id) (next : Phase Op Res) :
    State Shared Op Res Id :=
  { s with phase := Function.update s.phase id next }

/-- One step; `apply` is the sequential meaning of an operation. -/
def step [DecidableEq Id] (apply : Shared → Op → Shared × Res) (s : State Shared Op Res Id) :
    Action Id Op → Option (State Shared Op Res Id)
  | .invoke id op =>
      match s.phase id with
      | .idle => some (s.move id (.invoked op))
      | _ => none
  | .act id =>
      match s.phase id with
      | .invoked op =>
          let result := apply s.shared op
          some ((⟨result.1, s.phase, s.order ++ [⟨id, op, result.2⟩]⟩ :
            State Shared Op Res Id).move id (.acted op result.2))
      | _ => none
  | .finish id =>
      match s.phase id with
      | .acted op res => some (s.move id (.returned op res))
      | _ => none

def start (shared : Shared) : State Shared Op Res Id := ⟨shared, fun _ => .idle, []⟩

/-- Execute operations one after the other: their results and the state after them. -/
def execute (apply : Shared → Op → Shared × Res) : Shared → List Op → List Res × Shared
  | s, [] => ([], s)
  | s, op :: rest =>
      let result := apply s op
      let later := execute apply result.1 rest
      (result.2 :: later.1, later.2)

variable {apply : Shared → Op → Shared × Res}

/-- Operations run one after the other, so a list of them runs part by part. -/
theorem execute_append (s : Shared) (first rest : List Op) :
    execute apply s (first ++ rest) =
      ((execute apply s first).1 ++ (execute apply (execute apply s first).2 rest).1,
        (execute apply (execute apply s first).2 rest).2) := by
  induction first generalizing s with
  | nil => rfl
  | cons op first ih => simp only [List.cons_append, execute, ih]

/-- `a` comes before `b`: there is a place in the order with `a` in front of it and `b`
not. -/
def Before (order : List (Point Id Op Res)) (a b : Id) : Prop :=
  ∃ front back, order = front ++ back ∧ a ∈ front.map Point.id ∧ b ∉ front.map Point.id

section

variable [DecidableEq Id] {s : State Shared Op Res Id} {id : Id} {op : Op}

/-- The party that moves is in its next phase. -/
@[simp]
theorem State.move_phase_self (s : State Shared Op Res Id) (id : Id) (next : Phase Op Res) :
    (s.move id next).phase id = next :=
  Function.update_self ..

/-- Only the last move of a party counts. -/
@[simp]
theorem State.move_move (s : State Shared Op Res Id) (id : Id) (next last : Phase Op Res) :
    (s.move id next).move id last = s.move id last := by
  simp only [State.move, Function.update_idem]

/-- An idle party can begin an operation. -/
theorem step_invoke (h : s.phase id = .idle) :
    step apply s (.invoke id op) = some (s.move id (.invoked op)) := by
  simp only [step, h]

/-- What was invoked takes effect with the result that the shared state gives. -/
theorem step_act {after : Shared} {res : Res} (h : s.phase id = .invoked op)
    (happly : apply s.shared op = (after, res)) :
    step apply s (.act id) = some ((⟨after, s.phase, s.order ++ [⟨id, op, res⟩]⟩ :
      State Shared Op Res Id).move id (.acted op res)) := by
  simp only [step, h, happly]

/-- A party whose operation took effect can return. -/
theorem step_finish {res : Res} (h : s.phase id = .acted op res) :
    step apply s (.finish id) = some (s.move id (.returned op res)) := by
  simp only [step, h]

/-- An operation that returns as it takes effect. -/
theorem run_act_finish {after : Shared} {res : Res} (h : s.phase id = .invoked op)
    (happly : apply s.shared op = (after, res)) :
    runFrom (step apply) s [.act id, .finish id] =
      some ((⟨after, s.phase, s.order ++ [⟨id, op, res⟩]⟩ : State Shared Op Res Id).move id
        (.returned op res)) := by
  refine runFrom_cons.mpr ⟨_, step_act h happly, runFrom_cons.mpr
    ⟨_, step_finish (State.move_phase_self ..), ?_⟩⟩
  rw [runFrom_nil, State.move_move]

/-- An operation that is all done in one step. -/
theorem run_at_once {after : Shared} {res : Res} (h : s.phase id = .idle)
    (happly : apply s.shared op = (after, res)) :
    runFrom (step apply) s [.invoke id op, .act id, .finish id] =
      some ((⟨after, s.phase, s.order ++ [⟨id, op, res⟩]⟩ : State Shared Op Res Id).move id
        (.returned op res)) := by
  refine runFrom_cons.mpr ⟨_, step_invoke h, ?_⟩
  rw [run_act_finish (State.move_phase_self ..) happly]
  simp only [State.move, Function.update_idem]

end

/-- The parties that took effect are those in the order, and the order explains the
shared state and their results. -/
structure Explained (apply : Shared → Op → Shared × Res) (initial : Shared)
    (s : State Shared Op Res Id) : Prop where
  nodup : (s.order.map Point.id).Nodup
  effect : ∀ id op res, (s.phase id).effect = some (op, res) ↔
    (⟨id, op, res⟩ : Point Id Op Res) ∈ s.order
  results : execute apply initial (s.order.map Point.op) = (s.order.map Point.res, s.shared)

variable {initial : Shared} {s t : State Shared Op Res Id}

/-- A party with an effect is in the order. -/
theorem Explained.mem_ids (h : Explained apply initial s) {id : Id} :
    id ∈ s.order.map Point.id ↔ ((s.phase id).effect).isSome = true := by
  rw [Option.isSome_iff_exists, List.mem_map]
  constructor
  · intro hmem
    obtain ⟨point, hpoint, rfl⟩ := hmem
    exact ⟨(point.op, point.res), (h.effect _ _ _).mpr hpoint⟩
  · intro hsome
    obtain ⟨⟨op, res⟩, hop⟩ := hsome
    exact ⟨_, (h.effect id op res).mp hop, rfl⟩

/-- At first there is nothing to explain. -/
theorem explained_start (initial : Shared) :
    Explained apply initial (start initial : State Shared Op Res Id) where
  nodup := List.nodup_nil
  effect id op res := by
    constructor
    · intro h
      cases h
    · intro h
      exact absurd h List.not_mem_nil
  results := rfl

variable [DecidableEq Id]

/-- A step that takes no effect. -/
theorem explained_move (h : Explained apply initial s) {id : Id} {next : Phase Op Res}
    (heffect : next.effect = (s.phase id).effect) : Explained apply initial (s.move id next) where
  nodup := h.nodup
  effect other op res := by
    have hphase : ((s.move id next).phase other).effect = (s.phase other).effect := by
      simp only [State.move]
      by_cases hother : other = id
      · rw [hother, Function.update_self, heffect]
      · rw [Function.update_of_ne hother]
    rw [hphase]
    exact h.effect other op res
  results := h.results

/-- The step that takes effect. -/
theorem explained_act (h : Explained apply initial s) {id : Id} {op : Op}
    (hphase : s.phase id = .invoked op) :
    Explained apply initial ((⟨(apply s.shared op).1, s.phase,
      s.order ++ [⟨id, op, (apply s.shared op).2⟩]⟩ : State Shared Op Res Id).move id
        (.acted op (apply s.shared op).2)) where
  nodup := by
    have hnew : id ∉ s.order.map Point.id := by
      rw [h.mem_ids, hphase]
      exact Bool.false_ne_true
    rw [State.move, List.map_append, List.map_singleton]
    exact h.nodup.append (List.nodup_singleton _) (List.disjoint_singleton.mpr hnew)
  effect other op' res' := by
    simp only [State.move, List.mem_append, List.mem_singleton, Point.mk.injEq]
    rw [← h.effect other op' res']
    by_cases hother : other = id
    · rw [hother, Function.update_self, hphase]
      simp [Phase.effect, eq_comm]
    · rw [Function.update_of_ne hother]
      exact ⟨.inl, fun hor => hor.elim (fun hold => hold) fun hnew => absurd hnew.1 hother⟩
  results := by
    rw [State.move, List.map_append, List.map_append, execute_append, h.results]
    rfl

/-- **One step**: only `act` extends the order, by the operation that takes effect. -/
theorem explained_step {a : Action Id Op} (h : Explained apply initial s)
    (hstep : step apply s a = some t) : Explained apply initial t := by
  cases a with
  | invoke id op =>
      cases hphase : s.phase id with
      | idle =>
          simp only [step, hphase, Option.some.injEq] at hstep
          exact hstep ▸ explained_move h (by rw [hphase]; rfl)
      | invoked | acted | returned => simp [step, hphase] at hstep
  | act id =>
      cases hphase : s.phase id with
      | invoked op =>
          simp only [step, hphase, Option.some.injEq] at hstep
          exact hstep ▸ explained_act h hphase
      | idle | acted | returned => simp [step, hphase] at hstep
  | finish id =>
      cases hphase : s.phase id with
      | acted op res =>
          simp only [step, hphase, Option.some.injEq] at hstep
          exact hstep ▸ explained_move h (by rw [hphase]; rfl)
      | idle | invoked | returned => simp [step, hphase] at hstep

/-- **Every run is explained by the order of its atomic steps.** -/
theorem point_spec {schedule : List (Action Id Op)}
    (hrun : runFrom (step apply) (start initial) schedule = some t) : Explained apply initial t :=
  invariant_of_run (fun _ _ _ h hstep => explained_step h hstep) (explained_start initial) hrun

/-- The order only grows. -/
theorem order_prefix_of_step {a : Action Id Op} (hstep : step apply s a = some t) :
    s.order <+: t.order := by
  cases a with
  | invoke id op =>
      cases hphase : s.phase id <;>
        simp only [step, hphase, Option.some.injEq, reduceCtorEq] at hstep
      exact hstep ▸ List.prefix_rfl
  | act id =>
      cases hphase : s.phase id <;>
        simp only [step, hphase, Option.some.injEq, reduceCtorEq] at hstep
      exact hstep ▸ List.prefix_append _ _
  | finish id =>
      cases hphase : s.phase id <;>
        simp only [step, hphase, Option.some.injEq, reduceCtorEq] at hstep
      exact hstep ▸ List.prefix_rfl

/-- The order only grows. -/
theorem order_prefix_of_run {schedule : List (Action Id Op)}
    (hrun : runFrom (step apply) s schedule = some t) : s.order <+: t.order := by
  induction schedule generalizing s with
  | nil => exact Option.some.inj hrun ▸ List.prefix_rfl
  | cons a rest ih =>
      obtain ⟨u, hu, hrest⟩ := runFrom_cons.mp hrun
      exact (order_prefix_of_step hu).trans (ih hrest)

/-- **The order agrees with real time**: who took effect at a moment when another had not
comes before it.  In particular, who returned before another was invoked. -/
theorem before_of_effect {first rest : List (Action Id Op)} {a b : Id}
    (hfirst : runFrom (step apply) (start initial) first = some s)
    (hrest : runFrom (step apply) s rest = some t)
    (ha : (s.phase a).effect.isSome = true) (hb : (s.phase b).effect = none) :
    Before t.order a b := by
  have hs : Explained apply initial s := point_spec hfirst
  obtain ⟨back, hback⟩ := order_prefix_of_run hrest
  refine ⟨s.order, back, hback.symm, hs.mem_ids.mpr ha, fun hmem => ?_⟩
  rw [hs.mem_ids, hb] at hmem
  exact Bool.false_ne_true hmem

end AtomicPoints
