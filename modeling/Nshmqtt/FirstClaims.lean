import Mathlib.Data.List.Nodup
import Mathlib.Data.List.Perm.Basic
import Mathlib.Order.Basic
import Mathlib.Order.Lattice
import Mathlib.Tactic.Common

/-!
# The first claim wins

Elements are taken in order; each asks for a key, and only the first one to ask
for a key gets it.  `winners` are the elements that got theirs, `losers` the
others.  On a list in increasing order of some rank the outcome does not depend
on the walk: the winner of a key is the element of least rank that asks for it.
-/

namespace FirstClaims

variable {α κ ρ : Type*} [DecidableEq κ] (key : α → κ)

/-- The elements that get their key, when those of `claimed` are taken. -/
def winners (claimed : List κ) : List α → List α
  | [] => []
  | a :: rest =>
      if key a ∈ claimed then winners claimed rest
      else a :: winners (key a :: claimed) rest

/-- The elements that find their key taken. -/
def losers (claimed : List κ) : List α → List α
  | [] => []
  | a :: rest =>
      if key a ∈ claimed then a :: losers claimed rest
      else losers (key a :: claimed) rest

/-- Every element either gets its key or finds it taken. -/
theorem perm (claimed : List κ) (items : List α) :
    (winners key claimed items ++ losers key claimed items).Perm items := by
  induction items generalizing claimed with
  | nil => exact .nil
  | cons a rest ih =>
      rw [winners, losers]
      split_ifs with hclaimed
      · exact List.perm_middle.trans ((ih claimed).cons a)
      · exact (ih (key a :: claimed)).cons a

/-- Those that lose are among the items, in their order. -/
theorem losers_sublist (claimed : List κ) (items : List α) :
    (losers key claimed items).Sublist items := by
  induction items generalizing claimed with
  | nil => exact .slnil
  | cons a rest ih =>
      rw [losers]
      split_ifs
      · exact (ih claimed).cons_cons a
      · exact (ih (key a :: claimed)).cons a

/-- Every item wins or loses. -/
theorem length_add (claimed : List κ) (items : List α) :
    (winners key claimed items).length + (losers key claimed items).length = items.length := by
  rw [← List.length_append]
  exact (perm key claimed items).length_eq

/-- A winner has a key that was free. -/
theorem key_free {claimed : List κ} {items : List α} {a : α}
    (h : a ∈ winners key claimed items) : key a ∉ claimed := by
  induction items generalizing claimed with
  | nil => cases h
  | cons b rest ih =>
      rw [winners] at h
      by_cases hclaimed : key b ∈ claimed
      · rw [if_pos hclaimed] at h
        exact ih h
      · rw [if_neg hclaimed] at h
        rcases List.mem_cons.mp h with rfl | h
        · exact hclaimed
        · exact fun hmem => ih h (List.mem_cons_of_mem _ hmem)

/-- No key is given away twice. -/
theorem nodup_keys (claimed : List κ) (items : List α) :
    ((winners key claimed items).map key).Nodup := by
  induction items generalizing claimed with
  | nil => exact List.nodup_nil
  | cons a rest ih =>
      rw [winners]
      split_ifs
      · exact ih claimed
      · refine List.nodup_cons.mpr ⟨?_, ih (key a :: claimed)⟩
        intro hmem
        obtain ⟨b, hb, hkey⟩ := List.mem_map.mp hmem
        exact key_free key hb (hkey ▸ List.mem_cons_self)

/-- Every free key that is asked for is given away. -/
theorem exists_winner {claimed : List κ} {items : List α} {a : α} (ha : a ∈ items)
    (hfree : key a ∉ claimed) : ∃ b ∈ winners key claimed items, key b = key a := by
  induction items generalizing claimed with
  | nil => cases ha
  | cons b rest ih =>
      rw [winners]
      by_cases hclaimed : key b ∈ claimed
      · rw [if_pos hclaimed]
        rcases List.mem_cons.mp ha with rfl | ha
        · exact absurd hclaimed hfree
        · exact ih ha hfree
      · rw [if_neg hclaimed]
        by_cases hkey : key a = key b
        · exact ⟨b, List.mem_cons_self, hkey.symm⟩
        · rcases List.mem_cons.mp ha with rfl | ha
          · exact absurd rfl hkey
          · obtain ⟨c, hc, hsame⟩ := ih ha (by simp [hkey, hfree] : key a ∉ key b :: claimed)
            exact ⟨c, List.mem_cons_of_mem _ hc, hsame⟩

variable [LinearOrder ρ] {rank : α → ρ}

/-- **In order of rank** the winner of a free key has the least rank for it. -/
theorem mem_winners_iff {items : List α} (hsorted : items.Pairwise fun a b => rank a < rank b)
    (claimed : List κ) (a : α) :
    a ∈ winners key claimed items ↔
      a ∈ items ∧ key a ∉ claimed ∧ ∀ b ∈ items, key b = key a → rank a ≤ rank b := by
  induction items generalizing claimed with
  | nil => simp [winners]
  | cons first rest ih =>
      obtain ⟨hfirst, hrest⟩ := List.pairwise_cons.mp hsorted
      rw [winners]
      by_cases hclaimed : key first ∈ claimed
      · rw [if_pos hclaimed, ih hrest]
        constructor
        · intro h
          obtain ⟨ha, hfree, hleast⟩ := h
          refine ⟨List.mem_cons_of_mem _ ha, hfree, fun b hb hkey => ?_⟩
          rcases List.mem_cons.mp hb with rfl | hb
          · exact absurd (hkey ▸ hclaimed) hfree
          · exact hleast b hb hkey
        · intro h
          obtain ⟨ha, hfree, hleast⟩ := h
          rcases List.mem_cons.mp ha with rfl | ha
          · exact absurd hclaimed hfree
          · exact ⟨ha, hfree, fun b hb => hleast b (List.mem_cons_of_mem _ hb)⟩
      · rw [if_neg hclaimed, List.mem_cons, ih hrest]
        constructor
        · intro h
          rcases h with rfl | ⟨ha, hfree, hleast⟩
          · refine ⟨List.mem_cons_self, hclaimed, fun b hb _ => ?_⟩
            rcases List.mem_cons.mp hb with rfl | hb
            · exact le_rfl
            · exact (hfirst b hb).le
          · rw [List.mem_cons, not_or] at hfree
            refine ⟨List.mem_cons_of_mem _ ha, hfree.2, fun b hb hkey => ?_⟩
            rcases List.mem_cons.mp hb with rfl | hb
            · exact absurd hkey.symm hfree.1
            · exact hleast b hb hkey
        · intro h
          obtain ⟨ha, hfree, hleast⟩ := h
          rcases List.mem_cons.mp ha with rfl | ha
          · exact .inl rfl
          · refine .inr ⟨ha, ?_, fun b hb => hleast b (List.mem_cons_of_mem _ hb)⟩
            -- the first element would rank below `a` for the same key
            rw [List.mem_cons, not_or]
            exact ⟨fun hkey => absurd (hleast first List.mem_cons_self hkey.symm)
              (not_le.mpr (hfirst a ha)), hfree⟩

/-- **In order of rank** an element loses to a taken key or to a lower rank. -/
theorem mem_losers_iff {items : List α} (hsorted : items.Pairwise fun a b => rank a < rank b)
    (claimed : List κ) (a : α) :
    a ∈ losers key claimed items ↔
      a ∈ items ∧ (key a ∈ claimed ∨ ∃ b ∈ items, key b = key a ∧ rank b < rank a) := by
  have hnodup : items.Nodup := hsorted.imp fun hlt heq => absurd (heq ▸ hlt) (lt_irrefl _)
  have hboth := (perm key claimed items).mem_iff (a := a)
  rw [List.mem_append] at hboth
  have hdisjoint := List.nodup_append.mp ((perm key claimed items).nodup_iff.mpr hnodup)
  have hwins := mem_winners_iff key hsorted claimed a
  constructor
  · intro h
    refine ⟨hboth.mp (.inr h), ?_⟩
    by_contra hneither
    rw [not_or] at hneither
    have hwinner : a ∈ winners key claimed items := by
      refine hwins.mpr ⟨hboth.mp (.inr h), hneither.1, fun b hb hkey => ?_⟩
      by_contra hlt
      exact hneither.2 ⟨b, hb, hkey, not_le.mp hlt⟩
    exact hdisjoint.2.2 a hwinner a h rfl
  · intro h
    obtain ⟨ha, hlost⟩ := h
    refine (hboth.mpr ha).resolve_left fun hwinner => ?_
    obtain ⟨-, hfree, hleast⟩ := hwins.mp hwinner
    rcases hlost with hclaimed | ⟨b, hb, hkey, hlt⟩
    · exact hfree hclaimed
    · exact absurd (hleast b hb hkey) (not_le.mpr hlt)

end FirstClaims
