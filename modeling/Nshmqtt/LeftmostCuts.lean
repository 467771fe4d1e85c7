import Mathlib.Data.List.Infix
import Mathlib.Data.Nat.Find
import Mathlib.Tactic.Common

/-!
# Cutting a text at the occurrences of a token

The occurrences that a left-to-right search finds, each behind the end of the one
before, cut a text into the pieces between them.  Every text has exactly one such
cut, and writing a value between each two pieces replaces the occurrences.
-/

namespace LeftmostCuts

variable {α : Type*}

/-- `pieces` are what stands before, between and behind the occurrences of `token`. -/
inductive Cut (token : List α) : List α → List (List α) → Prop
  | last {text : List α} (free : ∀ j ≤ text.length, ¬ token <+: text.drop j) : Cut token text [text]
  | next {before rest : List α} {pieces : List (List α)}
      (first : ∀ j < before.length, ¬ token <+: (before ++ token ++ rest).drop j)
      (tail : Cut token rest pieces) : Cut token (before ++ token ++ rest) (before :: pieces)

/-- The pieces with the values between them. -/
def fill : List (List α) → List (List α) → List α
  | piece :: pieces, value :: values => piece ++ value ++ fill pieces values
  | pieces, _ => pieces.flatten

variable {token text : List α} {pieces : List (List α)}

theorem Cut.ne_nil (h : Cut token text pieces) : pieces ≠ [] := by
  cases h <;> exact List.cons_ne_nil _ _

/-- Writing the token back gives the text. -/
theorem Cut.fill_token (h : Cut token text pieces) :
    fill pieces (List.replicate (pieces.length - 1) token) = text := by
  induction h with
  | last => simp [fill]
  | @next before rest pieces _ tail ih =>
      obtain ⟨piece, others, rfl⟩ := List.exists_cons_of_ne_nil tail.ne_nil
      rw [List.length_cons, Nat.add_sub_cancel] at ih
      rw [List.length_cons, List.length_cons, Nat.add_sub_cancel, List.replicate_succ, fill, ih]

/-- **Every text has a cut.** -/
theorem exists_cut (htoken : token ≠ []) (text : List α) : ∃ pieces, Cut token text pieces := by
  induction hn : text.length using Nat.strong_induction_on generalizing text with
  | _ n ih =>
      classical
      by_cases hoccurs : ∃ j, token <+: text.drop j
      · obtain ⟨hstarts, hfirst⟩ := And.intro (Nat.find_spec hoccurs) fun j => Nat.find_min hoccurs
        set k := Nat.find hoccurs
        obtain ⟨rest, hrest⟩ := hstarts
        have hsplit : text.take k ++ token ++ rest = text := by
          rw [List.append_assoc, hrest, List.take_append_drop]
        have hpositive : 0 < token.length := List.length_pos_iff.mpr htoken
        have hlength := congrArg List.length hrest
        rw [List.length_append, List.length_drop] at hlength
        obtain ⟨pieces, hpieces⟩ := ih rest.length (by omega) rest rfl
        refine ⟨text.take k :: pieces, ?_⟩
        have hcut : Cut token (text.take k ++ token ++ rest) (text.take k :: pieces) := by
          refine .next (fun j hj => ?_) hpieces
          rw [hsplit]
          rw [List.length_take] at hj
          exact hfirst j (by omega)
        rwa [hsplit] at hcut
      · exact ⟨[text], .last fun j _ hj => hoccurs ⟨j, hj⟩⟩

/-- A token stands behind what is before it. -/
theorem prefix_behind (token before rest : List α) :
    token <+: (before ++ token ++ rest).drop before.length := by
  rw [List.append_assoc, List.drop_left]
  exact List.prefix_append _ _

/-- **A text has one cut only.** -/
theorem Cut.unique (h : Cut token text pieces) {other : List (List α)}
    (hother : Cut token text other) : pieces = other := by
  induction h generalizing other with
  | last free =>
      cases hother with
      | last => rfl
      | @next before rest =>
          refine absurd (prefix_behind token before rest) (free before.length ?_)
          rw [List.length_append, List.length_append]
          omega
  | @next before rest pieces first tail ih =>
      have hstarts := prefix_behind token before rest
      generalize htext : before ++ token ++ rest = text at hother
      cases hother with
      | last free =>
          subst htext
          refine absurd hstarts (free before.length ?_)
          rw [List.length_append, List.length_append]
          omega
      | @next before' rest' pieces' first' tail' =>
          have hstarts' := prefix_behind token before' rest'
          have hlength : before.length = before'.length := by
            rcases Nat.lt_trichotomy before.length before'.length with hlt | heq | hlt
            · exact absurd (htext ▸ hstarts) (first' _ hlt)
            · exact heq
            · exact absurd (htext ▸ hstarts') (first _ hlt)
          rw [List.append_assoc, List.append_assoc] at htext
          obtain ⟨rfl, hbehind⟩ := List.append_inj htext hlength
          obtain rfl := List.append_cancel_left hbehind
          rw [ih tail']

end LeftmostCuts
