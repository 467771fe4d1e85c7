import Mathlib.Algebra.Order.BigOperators.Group.Finset
import Mathlib.Data.Fintype.Basic

/-!
# Tallies over finitely many parties

The phases of finitely many parties are a function from the parties.  A tally
adds up a weight of the phases, for instance one for every party that holds a
given job.  When one party moves, the tally changes by the difference of two
weights.
-/

namespace Tally

variable {ι α : Type*} [Fintype ι]

/-- The weights of all parties' phases, added up. -/
def tally (weight : α → Nat) (phase : ι → α) : Nat := ∑ i, weight (phase i)

/-- **One party moves.** -/
theorem tally_update [DecidableEq ι] (weight : α → Nat) (phase : ι → α) (i : ι) (next : α) :
    tally weight (Function.update phase i next) + weight (phase i) =
      tally weight phase + weight next := by
  unfold tally
  rw [← Finset.add_sum_erase Finset.univ (fun j => weight (phase j)) (Finset.mem_univ i),
    ← Finset.add_sum_erase Finset.univ _ (Finset.mem_univ i), Function.update_self]
  have hrest : ∑ j ∈ Finset.univ.erase i, weight (Function.update phase i next j) =
      ∑ j ∈ Finset.univ.erase i, weight (phase j) := by
    apply Finset.sum_congr rfl
    intro j hj
    rw [Function.update_of_ne (Finset.ne_of_mem_erase hj)]
  rw [hrest]
  omega

/-- A move between phases of the same weight. -/
theorem tally_update_of_eq [DecidableEq ι] {weight : α → Nat} {phase : ι → α} {i : ι}
    {next : α} (h : weight next = weight (phase i)) :
    tally weight (Function.update phase i next) = tally weight phase := by
  have hmove := tally_update weight phase i next
  omega

/-- Nobody counts where all weights are zero. -/
theorem tally_eq_zero {weight : α → Nat} {phase : ι → α} (h : ∀ i, weight (phase i) = 0) :
    tally weight phase = 0 :=
  Finset.sum_eq_zero fun i _ => h i

/-- A map of the phases that keeps their weights keeps the tally. -/
theorem tally_congr {weight : α → Nat} {first second : ι → α}
    (h : ∀ i, weight (first i) = weight (second i)) :
    tally weight first = tally weight second :=
  Finset.sum_congr rfl fun i _ => h i

/-- Two weights that are the same in the phases at hand. -/
theorem tally_eq_of_phases {first second : α → Nat} {phase : ι → α}
    (h : ∀ i, first (phase i) = second (phase i)) : tally first phase = tally second phase :=
  Finset.sum_congr rfl fun i _ => h i

theorem tally_add (first second : α → Nat) (phase : ι → α) :
    tally (fun a => first a + second a) phase = tally first phase + tally second phase :=
  Finset.sum_add_distrib

/-- A weight that is smaller in every phase has the smaller tally. -/
theorem tally_mono {lighter heavier : α → Nat} (h : ∀ a, lighter a ≤ heavier a)
    (phase : ι → α) : tally lighter phase ≤ tally heavier phase :=
  Finset.sum_le_sum fun i _ => h (phase i)

end Tally
