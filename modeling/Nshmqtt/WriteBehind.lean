import Nshmqtt.TransitionRuns

/-!
# Writing a shared value behind its updates

Several writers update one source value and each of them later brings a copy
of it to a sink: first the update, then a capture of the view to be written,
then the flush of the captured copy.  Nothing orders the flushes, so a copy
may be out of date when it reaches the sink.

The rule of this file: if no flush replaces an up-to-date sink by an
out-of-date copy, then whenever the sink is behind, some writer still owes it
the current view.  Once no writer owes anything, the sink holds the view of
the source.
-/

namespace WriteBehind

variable {Writer Source View : Type*}

/-- What one writer still has to do. -/
inductive Stage (View : Type*)
  /-- Nothing left to bring to the sink. -/
  | idle
  /-- Updated the source; the copy is not taken yet. -/
  | dirty
  /-- A copy is taken and not flushed yet. -/
  | holding (copy : View)

/-- The sink holds the current view, or some writer still has to take a copy
or already holds the current one. -/
def Covered (view : Source → View) (source : Source) (sink : View)
    (stage : Writer → Stage View) : Prop :=
  sink = view source ∨
    ∃ i, stage i = .dirty ∨ stage i = .holding (view source)

/-- A flush that does not replace an up-to-date sink by an outdated copy. -/
def FreshFlush (view : Source → View) (source : Source) (sink copy : View) : Prop :=
  sink = view source → copy = view source

variable {view : Source → View} {source : Source} {sink : View}
  {stage stage' : Writer → Stage View} {i : Writer}

/-- After an update the writer itself owes the sink a copy. -/
theorem covered_of_dirty (hi : stage i = .dirty) : Covered view source sink stage :=
  Or.inr ⟨i, Or.inl hi⟩

/-- A copy taken now is current. -/
theorem covered_of_capture (hi : stage i = .holding (view source)) :
    Covered view source sink stage :=
  Or.inr ⟨i, Or.inr hi⟩

/-- A step that leaves the source, the sink and every pending obligation alone
keeps the coverage. -/
theorem covered_of_stages (h : Covered view source sink stage)
    (hkeep : ∀ j, stage j ≠ .idle → stage' j = stage j) :
    Covered view source sink stage' := by
  rcases h with h | ⟨j, hj | hj⟩
  · exact Or.inl h
  · exact Or.inr ⟨j, Or.inl ((hkeep j (by simp [hj])).trans hj)⟩
  · exact Or.inr ⟨j, Or.inr ((hkeep j (by simp [hj])).trans hj)⟩

/-- **Fresh flushes keep the coverage.**  If the flushed copy is current the
sink is current; otherwise the sink was already behind, and the writer that
covered it is not the flushing one. -/
theorem covered_of_flush {copy : View} (h : Covered view source sink stage)
    (hi : stage i = .holding copy) (hfresh : FreshFlush view source sink copy)
    (hkeep : ∀ j, j ≠ i → stage' j = stage j) :
    Covered view source copy stage' := by
  by_cases hcopy : copy = view source
  · exact Or.inl hcopy
  · rcases h with h | ⟨j, hj⟩
    · exact absurd (hfresh h) hcopy
    · have hne : j ≠ i := by
        intro heq
        subst heq
        rcases hj with hj | hj <;> simp_all
      exact Or.inr ⟨j, by rw [hkeep j hne]; exact hj⟩

/-- Once no writer owes the sink anything, the sink holds the current view. -/
theorem sink_eq_of_idle (h : Covered view source sink stage)
    (hidle : ∀ j, stage j = .idle) : sink = view source := by
  rcases h with h | ⟨j, hj⟩
  · exact h
  · simp [hidle j] at hj

end WriteBehind
