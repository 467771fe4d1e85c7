import Nshmqtt.EventPlaceholders
import Nshmqtt.LeftmostCuts
import Nshmqtt.TransitionRuns

/-!
# One value for each occurrence

The loop of `replace_all_with_fresh_values` edits the text that it searches, so neither
the text nor the position alone says how far it is.  What stays true is that the cursor
stands between what is finished and a rest of the original text: the loop goes through
the occurrences of the original text, whatever the values are.

* `replaceTurn` is one turn of the loop, with any generator and what it works on;
* `replaceTurn_cut` and `run_cut` : a turn takes one piece of the cut, and the whole
  loop takes them all;
* `replaceAll_occurrences` puts this together.
-/

namespace Nshmqtt

open ByteStrings LeftmostCuts TransitionRuns

variable {σ : Type*}

/-- The variables of the loop, and what the generator reads and changes. -/
structure ReplaceLoop (σ : Type*) where
  text : Bytes
  pos : Nat
  source : σ

/-- One turn of the loop calls the generator once; `none` when no occurrence is left. -/
def replaceTurn (token : Bytes) (generate : σ → Bytes × σ) (loop : ReplaceLoop σ) :
    Option (ReplaceLoop σ) :=
  match find loop.text token loop.pos with
  | none => none
  | some k =>
      let value := generate loop.source
      some
        { text := loop.text.take k ++ value.1 ++ loop.text.drop (k + token.length)
          pos := k + value.1.length
          source := value.2 }

/-- `n` turns of the loop. -/
def replaceTurns (token : Bytes) (generate : σ → Bytes × σ) (loop : ReplaceLoop σ) (n : Nat) :
    Option (ReplaceLoop σ) :=
  runFrom (fun loop (_ : Unit) => replaceTurn token generate loop) loop (List.replicate n ())

/-- The values of `n` calls of the generator, and what they leave behind. -/
def generated (generate : σ → Bytes × σ) : Nat → σ → List Bytes × σ
  | 0, source => ([], source)
  | n + 1, source =>
      let value := generate source
      let values := generated generate n value.2
      (value.1 :: values.1, values.2)

variable {token : Bytes} (generate : σ → Bytes × σ)

/-- A token is found where it begins first. -/
theorem find_first {before rest : Bytes}
    (hfirst : ∀ j < before.length, ¬ token <+: (before ++ token ++ rest).drop j) :
    find (before ++ token ++ rest) token 0 = some before.length := by
  rw [find_eq_some_iff]
  refine ⟨Nat.zero_le _, ?_, prefix_behind token before rest, fun j _ hj => hfirst j hj⟩
  rw [List.append_assoc, List.length_append]
  exact Nat.le_add_right _ _

/-- A turn behind what is done replaces the first occurrence in the rest. -/
theorem replaceTurn_cut {done before rest : Bytes} {source : σ}
    (hfirst : ∀ j < before.length, ¬ token <+: (before ++ token ++ rest).drop j) :
    replaceTurn token generate ⟨done ++ (before ++ token ++ rest), done.length, source⟩ =
      some ⟨done ++ (before ++ (generate source).1) ++ rest,
        (done ++ (before ++ (generate source).1)).length, (generate source).2⟩ := by
  have hfind : find (done ++ (before ++ token ++ rest)) token done.length =
      some (before.length + done.length) := by
    rw [find_at, find_first hfirst, Option.map_some]
  have htake : (done ++ (before ++ token ++ rest)).take (before.length + done.length) =
      done ++ before := by
    rw [Nat.add_comm, ← List.length_append, List.append_assoc, ← List.append_assoc,
      List.take_left]
  have hdrop : (done ++ (before ++ token ++ rest)).drop
      (before.length + done.length + token.length) = rest := by
    have hlength : before.length + done.length + token.length =
        (done ++ before ++ token).length := by
      simp only [List.length_append]
      omega
    rw [hlength, ← List.append_assoc, ← List.append_assoc, List.drop_left]
  have hpos : before.length + done.length + (generate source).1.length =
      (done ++ (before ++ (generate source).1)).length := by
    simp only [List.length_append]
    omega
  unfold replaceTurn
  dsimp only
  rw [hfind]
  dsimp only
  rw [htake, hdrop, hpos, List.append_assoc done]

/-- Without an occurrence in the rest the loop ends. -/
theorem replaceTurn_free {done rest : Bytes} {source : σ}
    (hfree : ∀ j ≤ rest.length, ¬ token <+: rest.drop j) :
    replaceTurn token generate ⟨done ++ rest, done.length, source⟩ = none := by
  have hnone : find rest token 0 = none := by
    by_contra hfound
    obtain ⟨k, hk⟩ := Option.ne_none_iff_exists'.mp hfound
    obtain ⟨-, hle, hoccurs, -⟩ := find_eq_some_iff.mp hk
    exact hfree k hle hoccurs
  unfold replaceTurn
  dsimp only
  rw [find_at, hnone, Option.map_none]

/-- **The whole loop** takes as many turns as there are occurrences in the rest. -/
theorem run_cut {rest : Bytes} {pieces : List Bytes} (hcut : Cut token rest pieces) (done : Bytes)
    (source : σ) :
    ∃ last, replaceTurns token generate ⟨done ++ rest, done.length, source⟩ (pieces.length - 1) =
        some last ∧
      replaceTurn token generate last = none ∧
      last.text = done ++ fill pieces (generated generate (pieces.length - 1) source).1 ∧
      last.source = (generated generate (pieces.length - 1) source).2 := by
  induction hcut generalizing done source with
  | @last rest hfree =>
      refine ⟨_, rfl, replaceTurn_free generate hfree, ?_, rfl⟩
      simp [fill, generated]
  | @next before rest pieces hfirst tail ih =>
      obtain ⟨piece, others, rfl⟩ := List.exists_cons_of_ne_nil tail.ne_nil
      obtain ⟨last, hrun, hend, htext, hsource⟩ :=
        ih (done ++ (before ++ (generate source).1)) (generate source).2
      rw [List.length_cons, Nat.add_sub_cancel] at hrun htext hsource
      refine ⟨last, ?_, hend, ?_, hsource⟩
      · rw [List.length_cons, List.length_cons, Nat.add_sub_cancel, replaceTurns,
          List.replicate_succ, runFrom_cons]
        exact ⟨_, replaceTurn_cut generate hfirst, hrun⟩
      · rw [htext, List.length_cons, List.length_cons, Nat.add_sub_cancel, generated, fill]
        simp only [List.append_assoc]

/-- The loop of the source, with the values counted, is these turns. -/
theorem replaceFrom_turns (htoken : token ≠ []) (value : Nat → Bytes) {n : Nat}
    {loop last : ReplaceLoop Nat}
    (hrun : replaceTurns token (fun count => (value count, count + 1)) loop n = some last)
    (hend : replaceTurn token (fun count => (value count, count + 1)) last = none) :
    replaceFrom token value loop.text loop.pos loop.source = last.text := by
  induction n generalizing loop with
  | zero =>
      obtain rfl := Option.some.inj hrun
      rw [replaceFrom_eq htoken]
      unfold replaceTurn at hend
      cases hfind : find loop.text token loop.pos with
      | none => rfl
      | some k =>
          rw [hfind] at hend
          cases hend
  | succ n ih =>
      rw [replaceTurns, List.replicate_succ, runFrom_cons] at hrun
      obtain ⟨next, hturn, hrest⟩ := hrun
      rw [← ih hrest, replaceFrom_eq htoken]
      unfold replaceTurn at hturn
      cases hfind : find loop.text token loop.pos with
      | none =>
          rw [hfind] at hturn
          cases hturn
      | some k =>
          rw [hfind] at hturn
          cases hturn
          rfl

/-- The values that a pass over a payload puts in are the first ones, in order. -/
theorem replaceAllWithFreshValues_eq_fill (htoken : token ≠ []) (text : Bytes)
    (value : Nat → Bytes) :
    ∃ pieces, Cut token text pieces ∧ replaceAllWithFreshValues text token value =
      fill pieces
        (generated (fun count => (value count, count + 1)) (pieces.length - 1) 0).1 := by
  obtain ⟨pieces, hcut⟩ := exists_cut htoken text
  obtain ⟨last, hrun, hend, htext, -⟩ :=
    run_cut (fun count => (value count, count + 1)) hcut [] 0
  exact ⟨pieces, hcut, (replaceFrom_turns htoken value hrun hend).trans htext⟩

/-- **Every occurrence is replaced once.**  The occurrences of a token cut the text in one
way only; the loop ends after one turn for each of them, with one value each between the
pieces of the original text. -/
theorem replaceAll_occurrences (htoken : token ≠ []) (text : Bytes) (source : σ) :
    ∃ pieces, Cut token text pieces ∧ (∀ other, Cut token text other → other = pieces) ∧
      fill pieces (List.replicate (pieces.length - 1) token) = text ∧
      ∃ last, replaceTurns token generate ⟨text, 0, source⟩ (pieces.length - 1) = some last ∧
        replaceTurn token generate last = none ∧
        last.text = fill pieces (generated generate (pieces.length - 1) source).1 ∧
        last.source = (generated generate (pieces.length - 1) source).2 := by
  obtain ⟨pieces, hcut⟩ := exists_cut htoken text
  exact ⟨pieces, hcut, fun other hother => hother.unique hcut, hcut.fill_token,
    run_cut generate hcut [] source⟩

/-- A generator whose values have the token in them, twice: the two occurrences of the
text are replaced, and the generator is called twice. -/
theorem replaceAll_recreated :
    ∃ last, replaceTurns (ascii "ab") (fun calls => (ascii "abab", calls + 1))
        ⟨ascii "xabyab", 0, 0⟩ 2 = some last ∧
      last.text = ascii "xababyabab" ∧ last.source = 2 := by
  have hcut : Cut (ascii "ab") (ascii "x" ++ ascii "ab" ++ (ascii "y" ++ ascii "ab" ++ []))
      [ascii "x", ascii "y", []] :=
    .next (by decide) (.next (by decide) (.last (by decide)))
  obtain ⟨pieces, -, hunique, -, last, hrun, -, htext, hsource⟩ :=
    replaceAll_occurrences (fun calls => (ascii "abab", calls + 1))
      (show ascii "ab" ≠ [] by decide) (ascii "xabyab") 0
  obtain rfl := hunique _ hcut
  exact ⟨last, hrun, htext, hsource⟩

end Nshmqtt
