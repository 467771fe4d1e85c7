import Mathlib.Data.Option.Basic
import Mathlib.Data.List.TakeDrop
import Mathlib.Tactic.Common

/-!
# Checked reads

Reads of a sequence by index that fail outside of it, differences that fail below zero, and
slices that fail when they start outside.  A run that is free of faults has made only reads in
bounds.

`IsAt s i rest` ties an index to the part of the sequence that starts there.  It is the relation
between a scanner that moves an index and one that takes the front off the rest.
-/

namespace CheckedReads

variable {α : Type}

/-- What can go wrong. -/
inductive Fault where
  | read
  | start
  | underflow

abbrev Checked := Except Fault

@[simp]
theorem ok_bind {β : Type} (a : α) (f : α → Checked β) : (Except.ok a : Checked α) >>= f = f a :=
  rfl

@[simp]
theorem pure_eq_ok (a : α) : (pure a : Checked α) = .ok a := rfl

/-- The element at an index inside the sequence. -/
def readAt (s : List α) (i : Nat) : Checked α :=
  match s[i]? with
  | some c => .ok c
  | none => .error .read

/-- A difference of indices. -/
def minusAt (a b : Nat) : Checked Nat := if b ≤ a then .ok (a - b) else .error .underflow

/-- The elements from an index inside the sequence on, at most so many. -/
def sliceAt (s : List α) (start length : Nat) : Checked (List α) :=
  if start < s.length then .ok ((s.drop start).take length) else .error .start

/-- The rest starts at the index. -/
structure IsAt (s : List α) (i : Nat) (rest : List α) : Prop where
  drop : s.drop i = rest
  le : i ≤ s.length

theorem isAt_drop {s : List α} {i : Nat} (h : i ≤ s.length) : IsAt s i (s.drop i) := ⟨rfl, h⟩

theorem isAt_zero (s : List α) : IsAt s 0 s := ⟨rfl, Nat.zero_le _⟩

namespace IsAt

variable {s rest : List α} {i : Nat} {c : α}

/-- The index and the rest make up the string. -/
theorem length (h : IsAt s i rest) : i + rest.length = s.length := by
  rw [← h.drop, List.length_drop]
  exact Nat.add_sub_cancel' h.le

/-- At the end there is nothing to read. -/
theorem not_lt (h : IsAt s i []) : ¬ i < s.length := by
  have hlength := h.length
  rw [List.length_nil] at hlength
  omega

/-- The index of a byte is below the length. -/
theorem lt (h : IsAt s i (c :: rest)) : i < s.length := by
  have hlength := h.length
  rw [List.length_cons] at hlength
  omega

/-- A read gives the first element of the rest. -/
theorem read (h : IsAt s i (c :: rest)) : readAt s i = .ok c := by
  have hget : s[i]? = some c := by
    rw [← List.head?_drop, h.drop, List.head?_cons]
  rw [readAt, hget]

/-- Behind a byte is the place of the rest. -/
theorem next (h : IsAt s i (c :: rest)) : IsAt s (i + 1) rest where
  drop := by rw [← List.drop_drop, h.drop, List.drop_one, List.tail_cons]
  le := h.lt

/-- The later of two positions has the shorter rest. -/
theorem lt_of_length_lt {rest' : List α} {j : Nat} (h : IsAt s i rest) (h' : IsAt s j rest')
    (hlength : rest'.length < rest.length) : i < j := by
  have hi := h.length
  have hj := h'.length
  omega

/-- A slice from a position with something behind it. -/
theorem slice {rest' : List α} {j : Nat} (h : IsAt s i rest) (h' : IsAt s j rest')
    (hlength : rest'.length < rest.length) (length : Nat) :
    sliceAt s i length = .ok (rest.take length) := by
  have hlt := h.lt_of_length_lt h' hlength
  rw [sliceAt, if_pos (Nat.lt_of_lt_of_le hlt h'.le), h.drop]

/-- The distance of two positions. -/
theorem minus {rest' : List α} {j : Nat} (h : IsAt s i rest) (h' : IsAt s j rest')
    (hlength : rest'.length < rest.length) : minusAt j i = .ok (rest.length - rest'.length) := by
  have hi := h.length
  have hj := h'.length
  rw [minusAt, if_pos (by omega)]
  congr 1
  omega

end IsAt

end CheckedReads
