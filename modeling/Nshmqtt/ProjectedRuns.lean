import Nshmqtt.TransitionRuns

/-!
# A run seen as a run of a smaller machine

A part of a machine is a machine of its own: each step of the whole is seen as no step,
one step or several steps of the part.  When this holds of every single step, every run
of the whole is seen as a run of the part, and what is known about all runs of the part
holds for the whole.
-/

namespace TransitionRuns

variable {State Action Part PartAction : Type*}

/-- What a schedule is seen as, from the state where it starts. -/
def seenFrom (step : State → Action → Option State) (see : State → Action → List PartAction) :
    State → List Action → List PartAction
  | _, [] => []
  | s, a :: rest => see s a ++ ((step s a).map fun t => seenFrom step see t rest).getD []

variable {step : State → Action → Option State} {see : State → Action → List PartAction}
  {partStep : Part → PartAction → Option Part}

/-- What a schedule is seen as is put together from its pieces. -/
theorem seenFrom_append {s u : State} {first : List Action}
    (hrun : runFrom step s first = some u) (rest : List Action) :
    seenFrom step see s (first ++ rest) = seenFrom step see s first ++ seenFrom step see u rest := by
  induction first generalizing s with
  | nil =>
      cases Option.some.inj hrun
      rfl
  | cons a first ih =>
      obtain ⟨v, hv, hrest⟩ := runFrom_cons.mp hrun
      simp only [List.cons_append, seenFrom, hv, Option.map_some, Option.getD_some, ih hrest,
        List.append_assoc]

/-- **Projection rule.**  When each step is seen as steps of the part, between related
states, each run is seen as a run of the part. -/
theorem runFrom_seen {related : State → Part → Prop}
    (seen : ∀ s p a t, related s p → step s a = some t →
      ∃ q, runFrom partStep p (see s a) = some q ∧ related t q)
    {s t : State} {p : Part} {schedule : List Action} (hp : related s p)
    (hrun : runFrom step s schedule = some t) :
    ∃ q, runFrom partStep p (seenFrom step see s schedule) = some q ∧ related t q := by
  induction schedule generalizing s p with
  | nil =>
      cases Option.some.inj hrun
      exact ⟨p, rfl, hp⟩
  | cons a rest ih =>
      obtain ⟨u, hu, hrest⟩ := runFrom_cons.mp hrun
      obtain ⟨r, hr, hrelated⟩ := seen s p a u hp hu
      obtain ⟨q, hq, hlast⟩ := ih hrelated hrest
      refine ⟨q, ?_, hlast⟩
      rw [seenFrom, hu, Option.map_some, Option.getD_some]
      exact runFrom_append.mpr ⟨r, hr, hq⟩

/-- **Purging rule.**  When the kept actions are possible on both sides of a relation, and the
others keep it by themselves, a run without the others is possible as well. -/
theorem runFrom_filter {keep : Action → Bool} {ok : Action → Prop} {related : State → Part → Prop}
    {partStep : Part → Action → Option Part}
    (kept : ∀ s p a t, keep a = true → ok a → related s p → step s a = some t →
      ∃ q, partStep p a = some q ∧ related t q)
    (purged : ∀ s p a t, keep a = false → ok a → related s p → step s a = some t → related t p)
    {s t : State} {p : Part} {schedule : List Action} (hp : related s p)
    (hok : ∀ a ∈ schedule, ok a) (hrun : runFrom step s schedule = some t) :
    ∃ q, runFrom partStep p (schedule.filter keep) = some q ∧ related t q := by
  induction schedule generalizing s p with
  | nil =>
      cases Option.some.inj hrun
      exact ⟨p, rfl, hp⟩
  | cons a rest ih =>
      rw [List.forall_mem_cons] at hok
      obtain ⟨u, hu, hrest⟩ := runFrom_cons.mp hrun
      cases hkeep : keep a with
      | true =>
          obtain ⟨r, hr, hrelated⟩ := kept s p a u hkeep hok.1 hp hu
          obtain ⟨q, hq, hlast⟩ := ih hrelated hok.2 hrest
          refine ⟨q, ?_, hlast⟩
          rw [List.filter_cons_of_pos hkeep]
          exact runFrom_cons.mpr ⟨r, hr, hq⟩
      | false =>
          rw [List.filter_cons_of_neg (by rw [hkeep]; exact Bool.false_ne_true)]
          exact ih (purged s p a u hkeep hok.1 hp hu) hok.2 hrest

end TransitionRuns
