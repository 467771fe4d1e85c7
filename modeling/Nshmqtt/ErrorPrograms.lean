import Mathlib.Tactic.Common

/-!
# Programs with a state and errors

A program changes a state and gives a result, or it stops early with an error and leaves the
state as it is then.  `Meets pre m post fail` says of every state with `pre` that `m` ends with
`post` or stops with `fail`.  One rule for each way to build a program.
-/

namespace ErrorPrograms

universe u

variable {σ ε α β : Type u}

/-- What a program gives from a state. -/
def ending (m : ExceptT ε (StateM σ) α) (s : σ) : Except ε α × σ := m.run s

/-- The result fits `post`, or the error fits `fail`. -/
def Ends (post : α → σ → Prop) (fail : ε → σ → Prop) : Except ε α × σ → Prop
  | (.ok a, t) => post a t
  | (.error e, t) => fail e t

def Meets (pre : σ → Prop) (m : ExceptT ε (StateM σ) α) (post : α → σ → Prop)
    (fail : ε → σ → Prop) : Prop :=
  ∀ s, pre s → Ends post fail (ending m s)

variable {pre : σ → Prop} {post : α → σ → Prop} {fail : ε → σ → Prop}

theorem meets_pure {a : α} (h : ∀ s, pre s → post a s) : Meets pre (pure a) post fail :=
  h

/-- A program that throws ends with its error. -/
theorem meets_throw {e : ε} (h : ∀ s, pre s → fail e s) :
    Meets pre (throw e) post fail :=
  h

theorem meets_modify {f : σ → σ} {post : PUnit → σ → Prop} (h : ∀ s, pre s → post ⟨⟩ (f s)) :
    Meets pre (modify f) post fail :=
  h

/-- **One program after the other.** -/
theorem meets_bind {m : ExceptT ε (StateM σ) α} {k : α → ExceptT ε (StateM σ) β}
    (mid : α → σ → Prop) {post : β → σ → Prop} (hm : Meets pre m mid fail)
    (hk : ∀ a, Meets (mid a) (k a) post fail) : Meets pre (m >>= k) post fail := by
  intro s hs
  have hfirst := hm s hs
  have hending : ending (m >>= k) s =
      match ending m s with
      | (.ok a, t) => ending (k a) t
      | (.error e, t) => (.error e, t) := by
    simp only [ending, bind, ExceptT.bind, ExceptT.run, ExceptT.mk, StateT.bind]
    generalize m s = result
    obtain ⟨_ | _, t⟩ := result <;> rfl
  rw [hending]
  generalize ending m s = result at hfirst ⊢
  obtain ⟨e | a, t⟩ := result
  · exact hfirst
  · exact hk a t hfirst

/-- Nothing comes after an error. -/
theorem meets_throw_bind {e : ε} {k : β → ExceptT ε (StateM σ) α}
    (h : ∀ s, pre s → fail e s) : Meets pre (throw e >>= k) post fail :=
  meets_bind (fun _ _ => False) (meets_throw h) fun _ _ hfalse => hfalse.elim

/-- A program that looks at the state first. -/
theorem meets_get {k : σ → ExceptT ε (StateM σ) α}
    (h : ∀ s, Meets (fun t => t = s ∧ pre t) (k s) post fail) :
    Meets pre (get >>= k) post fail := by
  intro s hs
  exact h s s ⟨rfl, hs⟩

/-- The rule of consequence. -/
theorem Meets.weaken {m : ExceptT ε (StateM σ) α} {pre' : σ → Prop} {post' : α → σ → Prop}
    {fail' : ε → σ → Prop} (h : Meets pre m post fail) (hpre : ∀ s, pre' s → pre s)
    (hpost : ∀ a s, post a s → post' a s) (hfail : ∀ e s, fail e s → fail' e s) :
    Meets pre' m post' fail' := by
  intro s hs
  have hends := h s (hpre s hs)
  generalize ending m s = result at hends ⊢
  obtain ⟨e | a, t⟩ := result
  · exact hfail e t hends
  · exact hpost a t hends

end ErrorPrograms
