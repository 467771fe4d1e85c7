import Mathlib.Data.List.Perm.Basic

/-!
# Resources that are held

A log of acquisitions and releases, with other entries in between.  `Holds held log` says that
nothing was released in it that was not held at that moment, and that `held` is what is held at
the end, in some order.
-/

namespace HeldResources

inductive Entry (R O : Type*)
  | acquired (r : R)
  | released (r : R)
  | other (o : O)

variable {R O : Type*} [DecidableEq R]

/-- What is held after a log; `none` if something was released that was not held. -/
def heldAfter : List R → List (Entry R O) → Option (List R)
  | held, [] => some held
  | held, .acquired r :: rest => heldAfter (r :: held) rest
  | held, .released r :: rest => if r ∈ held then heldAfter (held.erase r) rest else none
  | held, .other _ :: rest => heldAfter held rest

def Holds (held : List R) (log : List (Entry R O)) : Prop :=
  ∃ final, heldAfter [] log = some final ∧ final.Perm held

/-- A log goes on from what was held. -/
theorem heldAfter_append {held middle : List R} {first : List (Entry R O)}
    (h : heldAfter held first = some middle) (rest : List (Entry R O)) :
    heldAfter held (first ++ rest) = heldAfter middle rest := by
  induction first generalizing held with
  | nil =>
      cases Option.some.inj h
      rfl
  | cons entry first ih =>
      cases entry with
      | acquired r => exact ih h
      | released r =>
          simp only [heldAfter] at h
          split_ifs at h with hmem
          simp only [List.cons_append, heldAfter, hmem, if_true]
          exact ih h
      | other o => exact ih h

namespace Holds

variable {held : List R} {log : List (Entry R O)} {r : R}

theorem nil : Holds [] ([] : List (Entry R O)) := ⟨[], rfl, List.Perm.refl _⟩

theorem acquire (h : Holds held log) (r : R) : Holds (r :: held) (log ++ [.acquired r]) := by
  obtain ⟨final, hfinal, hperm⟩ := h
  exact ⟨r :: final, heldAfter_append hfinal _, hperm.cons r⟩

/-- What is released is not held any more. -/
theorem release (h : Holds (r :: held) log) : Holds held (log ++ [.released r]) := by
  obtain ⟨final, hfinal, hperm⟩ := h
  have hmem : r ∈ final := hperm.mem_iff.mpr List.mem_cons_self
  refine ⟨final.erase r, ?_, ?_⟩
  · rw [heldAfter_append hfinal]
    simp only [heldAfter, hmem, if_true]
  · have herase := hperm.erase r
    rwa [List.erase_cons_head] at herase

theorem note (h : Holds held log) (o : O) : Holds held (log ++ [.other o]) := by
  obtain ⟨final, hfinal, hperm⟩ := h
  exact ⟨final, heldAfter_append hfinal _, hperm⟩

/-- The order does not matter. -/
theorem perm {held' : List R} (h : Holds held log) (hperm : held.Perm held') :
    Holds held' log := by
  obtain ⟨final, hfinal, hfirst⟩ := h
  exact ⟨final, hfinal, hfirst.trans hperm⟩

/-- Release one after the other. -/
theorem releaseAll {rs : List R} (h : Holds (rs ++ held) log) :
    Holds held (log ++ rs.map .released) := by
  induction rs generalizing log with
  | nil => simpa using h
  | cons r rs ih =>
      have hrest := ih h.release
      rwa [List.append_assoc, List.singleton_append] at hrest

end Holds

end HeldResources
