import Mathlib.Logic.Function.Basic
import Mathlib.Data.List.Basic

/-!
# Last assignments

A state made of one value per key, and a run of assignments, each of which reads its value
from a text.  An assignment with a text that gives no value ends the run.

* `read_run` : after a run, each key has the value of its last text, or the one it had;
* `run_isSome_iff` : a run ends well when every text gives a value, wherever it stands;
* `run_eq_of_lastOf` : the last texts decide the state.
-/

namespace LastAssignments

variable {σ κ τ : Type*} {β : κ → Type*} [DecidableEq κ]

/-- A state that is its values, and that is changed one value at a time. -/
structure Fields (σ : Type*) {κ : Type*} [DecidableEq κ] (β : κ → Type*) where
  get : σ → ∀ k, β k
  set : σ → ∀ k, β k → σ
  get_set : ∀ s k x, get (set s k x) = Function.update (get s) k x
  ext : ∀ s t, get s = get t → s = t

/-- The last text that is assigned to a key. -/
def lastOf (k : κ) : List (κ × τ) → Option τ
  | [] => none
  | a :: rest => (lastOf k rest).or (if a.1 = k then some a.2 else none)

variable (F : Fields σ β) (value : ∀ k, τ → Option (β k))

def assign (s : σ) (a : κ × τ) : Option σ := (value a.1 a.2).map (F.set s a.1)

def run (s : σ) (assignments : List (κ × τ)) : Option σ := assignments.foldlM (assign F value) s

/-- What a key has behind the assignments. -/
def settled (s : σ) (assignments : List (κ × τ)) (k : κ) : Option (β k) :=
  match lastOf k assignments with
  | none => some (F.get s k)
  | some text => value k text

/-- A later assignment comes before an earlier one. -/
theorem lastOf_append (k : κ) (as bs : List (κ × τ)) :
    lastOf k (as ++ bs) = (lastOf k bs).or (lastOf k as) := by
  induction as with
  | nil => rw [List.nil_append, lastOf, Option.or_none]
  | cons a as ih => rw [List.cons_append, lastOf, lastOf, ih, Option.or_assoc]

/-- Two assignments to different keys may change places. -/
theorem lastOf_swap (k : κ) {a b : κ × τ} (hne : a.1 ≠ b.1) (before after : List (κ × τ)) :
    lastOf k (before ++ a :: b :: after) = lastOf k (before ++ b :: a :: after) := by
  rw [lastOf_append, lastOf_append, lastOf, lastOf, lastOf, lastOf]
  by_cases ha : a.1 = k
  · have hb : b.1 ≠ k := fun hb => hne (ha.trans hb.symm)
    rw [if_neg hb, Option.or_none, Option.or_none]
  · rw [if_neg ha, Option.or_none, Option.or_none]

/-- A key that is assigned to has a last value. -/
theorem lastOf_isSome {a : κ × τ} {assignments : List (κ × τ)} (h : a ∈ assignments) :
    (lastOf a.1 assignments).isSome = true := by
  induction assignments with
  | nil => cases h
  | cons b rest ih =>
      rw [lastOf, Option.isSome_or, Bool.or_eq_true]
      cases h with
      | head => exact .inr (by rw [if_pos rfl]; rfl)
      | tail _ h => exact .inl (ih h)

/-- An assignment that is followed by another one to its key does not count. -/
theorem lastOf_repeat (k : κ) {a later : κ × τ} (hkey : later.1 = a.1) {after : List (κ × τ)}
    (hlater : later ∈ after) (before : List (κ × τ)) :
    lastOf k (before ++ a :: after) = lastOf k (before ++ after) := by
  rw [lastOf_append, lastOf_append, lastOf]
  by_cases ha : a.1 = k
  · have hsome := lastOf_isSome hlater
    rw [hkey, ha] at hsome
    obtain ⟨text, htext⟩ := Option.isSome_iff_exists.mp hsome
    rw [htext, Option.some_or, Option.some_or]
  · rw [if_neg ha, Option.or_none]

section Runs

variable {F value} {s t : σ}

@[simp] theorem run_nil : run F value s [] = some s := rfl

theorem run_cons (a : κ × τ) (rest : List (κ × τ)) :
    run F value s (a :: rest) = (assign F value s a).bind fun next => run F value next rest :=
  rfl

theorem run_append (as bs : List (κ × τ)) :
    run F value s (as ++ bs) = (run F value s as).bind fun next => run F value next bs :=
  List.foldlM_append

/-- A run ends well when every text gives a value; where the assignments stand and what the
state was do not matter. -/
theorem run_isSome_iff {assignments : List (κ × τ)} :
    (run F value s assignments).isSome = true ↔
      ∀ a ∈ assignments, (value a.1 a.2).isSome = true := by
  induction assignments generalizing s with
  | nil => simp
  | cons a rest ih =>
      rw [run_cons, assign, List.forall_mem_cons]
      cases value a.1 a.2 with
      | none => simp
      | some x => simpa using ih

/-- **The last text decides**: each key has its value, or what it had before. -/
theorem read_run {assignments : List (κ × τ)} (h : run F value s assignments = some t) (k : κ) :
    some (F.get t k) = settled F value s assignments k := by
  induction assignments generalizing s with
  | nil =>
      cases h
      rfl
  | cons a rest ih =>
      rw [run_cons, Option.bind_eq_some_iff] at h
      obtain ⟨next, hnext, hrest⟩ := h
      obtain ⟨x, hx, rfl⟩ := Option.map_eq_some_iff.mp hnext
      rw [ih hrest, settled, settled, lastOf]
      cases lastOf k rest with
      | some text => rfl
      | none =>
          rw [Option.none_or, F.get_set]
          by_cases hk : a.1 = k
          · subst hk
            rw [if_pos rfl, Function.update_self]
            exact hx.symm
          · rw [if_neg hk, Function.update_of_ne (Ne.symm hk)]

/-- Two runs with the same last texts end in the same state. -/
theorem run_eq_of_lastOf {as bs : List (κ × τ)} (h : run F value s as = some t)
    (hvalues : ∀ b ∈ bs, (value b.1 b.2).isSome = true) (hlast : ∀ k, lastOf k bs = lastOf k as) :
    run F value s bs = some t := by
  obtain ⟨t', ht'⟩ := Option.isSome_iff_exists.mp (run_isSome_iff.mpr hvalues)
  rw [ht', Option.some.injEq]
  apply F.ext
  funext k
  have hk : some (F.get t' k) = some (F.get t k) := by
    rw [read_run ht', read_run h, settled, settled, hlast]
  exact Option.some.inj hk

end Runs

end LastAssignments
