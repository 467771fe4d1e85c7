import Mathlib.Data.List.Induction
import Mathlib.Order.Basic
import Mathlib.Tactic.Common
import Mathlib.Tactic.Linarith

/-!
# Maps kept as strictly sorted entry lists

The entries of a `SortedMap` are listed once, in increasing key order, as an
ordered container iterates over them.  The order is a field of the structure,
so two maps with the same lookups have the same entries.
-/

/-- A finite map whose entries are listed in strictly increasing key order. -/
@[ext]
structure SortedMap (κ β : Type*) [LinearOrder κ] where
  entries : List (κ × β)
  sorted : (entries.map Prod.fst).Pairwise (· < ·)

namespace SortedMap

variable {κ β γ : Type*} [LinearOrder κ]

instance [DecidableEq β] : DecidableEq (SortedMap κ β) := fun m n =>
  decidable_of_iff (m.entries = n.entries) SortedMap.ext_iff.symm

/-- The map without entries. -/
def empty : SortedMap κ β := ⟨[], List.Pairwise.nil⟩

/-- The value stored under `k`. -/
def lookup (m : SortedMap κ β) (k : κ) : Option β :=
  (m.entries.find? fun entry => entry.1 = k).map Prod.snd

/-- Put `k` at its place, replacing an entry with the same key. -/
def insertEntry (k : κ) (v : β) : List (κ × β) → List (κ × β)
  | [] => [(k, v)]
  | (k', v') :: rest =>
      if k < k' then (k, v) :: (k', v') :: rest
      else if k = k' then (k, v) :: rest
      else (k', v') :: insertEntry k v rest

/-- The keys after an insertion. -/
theorem key_mem_insertEntry {k key : κ} {v : β} {l : List (κ × β)}
    (h : key ∈ (insertEntry k v l).map Prod.fst) :
    key = k ∨ key ∈ l.map Prod.fst := by
  induction l with
  | nil => simpa [insertEntry] using h
  | cons entry rest ih =>
      obtain ⟨k', v'⟩ := entry
      rw [insertEntry] at h
      split_ifs at h with hlt heq
      · simpa using h
      · subst heq
        simpa using h
      · rcases List.mem_cons.mp h with rfl | h
        · simp
        · rcases ih h with rfl | h <;> simp_all

/-- An insertion keeps the order of the keys. -/
theorem sorted_insertEntry (k : κ) (v : β) {l : List (κ × β)}
    (h : (l.map Prod.fst).Pairwise (· < ·)) :
    ((insertEntry k v l).map Prod.fst).Pairwise (· < ·) := by
  induction l with
  | nil => simp [insertEntry]
  | cons entry rest ih =>
      obtain ⟨k', v'⟩ := entry
      have hcons := List.pairwise_cons.mp h
      rw [insertEntry]
      split_ifs with hlt heq
      · refine List.pairwise_cons.mpr ⟨?_, h⟩
        intro key hkey
        rcases List.mem_cons.mp hkey with rfl | hkey
        · exact hlt
        · exact hlt.trans (hcons.1 key hkey)
      · subst heq
        exact h
      · refine List.pairwise_cons.mpr ⟨?_, ih hcons.2⟩
        intro key hkey
        rcases key_mem_insertEntry hkey with rfl | hkey
        · exact lt_of_le_of_ne (not_lt.mp hlt) (Ne.symm heq)
        · exact hcons.1 key hkey

/-- Set or replace the value under `k`. -/
def insert (m : SortedMap κ β) (k : κ) (v : β) : SortedMap κ β :=
  ⟨insertEntry k v m.entries, sorted_insertEntry k v m.sorted⟩

/-- Drop the entry under `k`, if there is one. -/
def erase (m : SortedMap κ β) (k : κ) : SortedMap κ β :=
  ⟨m.entries.filter fun entry => entry.1 ≠ k,
    m.sorted.sublist (List.filter_sublist.map _)⟩

/-- Apply `f` to every value. -/
def mapValues (m : SortedMap κ β) (f : β → γ) : SortedMap κ γ :=
  ⟨m.entries.map fun entry => (entry.1, f entry.2), by
    simpa [Function.comp_def] using m.sorted⟩

/-- The keys in order. -/
def keys (m : SortedMap κ β) : List κ := m.entries.map Prod.fst

@[simp]
theorem lookup_empty (k : κ) : (empty : SortedMap κ β).lookup k = none :=
  rfl

/-- **The law of insertion.** -/
theorem lookup_insert (m : SortedMap κ β) (k key : κ) (v : β) :
    (m.insert k v).lookup key = if key = k then some v else m.lookup key := by
  unfold lookup insert
  show Option.map Prod.snd ((insertEntry k v m.entries).find? _) = _
  induction m.entries with
  | nil => by_cases h : k = key <;> simp [insertEntry, h, eq_comm]
  | cons entry rest ih =>
      obtain ⟨k', v'⟩ := entry
      rw [insertEntry]
      split_ifs with hlt heq hkey hkey
      all_goals grind

@[simp]
theorem lookup_insert_self (m : SortedMap κ β) (k : κ) (v : β) :
    (m.insert k v).lookup k = some v := by
  simp [lookup_insert]

theorem lookup_insert_of_ne (m : SortedMap κ β) {k key : κ} (v : β) (h : key ≠ k) :
    (m.insert k v).lookup key = m.lookup key := by
  simp [lookup_insert, h]

/-- **The law of erasure.** -/
theorem lookup_erase (m : SortedMap κ β) (k key : κ) :
    (m.erase k).lookup key = if key = k then none else m.lookup key := by
  show Option.map Prod.snd
      ((m.entries.filter fun entry => decide (entry.1 ≠ k)).find? _) =
    if key = k then none else Option.map Prod.snd (m.entries.find? _)
  induction m.entries with
  | nil => simp
  | cons entry rest ih => grind

/-- The values are mapped one by one. -/
theorem lookup_mapValues (m : SortedMap κ β) (f : β → γ) (k : κ) :
    (m.mapValues f).lookup k = (m.lookup k).map f := by
  unfold lookup mapValues
  simp only [List.find?_map, Option.map_map]
  rfl

/-- A key is listed exactly when it has a value. -/
theorem mem_keys_iff (m : SortedMap κ β) (k : κ) :
    k ∈ m.keys ↔ (m.lookup k).isSome := by
  unfold keys lookup
  induction m.entries with
  | nil => simp
  | cons entry rest ih => grind

/-- The listed entries are the graph of the lookups. -/
theorem mem_entries_iff (m : SortedMap κ β) (k : κ) (v : β) :
    (k, v) ∈ m.entries ↔ m.lookup k = some v := by
  obtain ⟨entries, sorted⟩ := m
  unfold lookup
  induction entries with
  | nil => simp
  | cons entry rest ih =>
      obtain ⟨k', v'⟩ := entry
      have hcons := List.pairwise_cons.mp sorted
      by_cases hk : k' = k
      · subst hk
        have hnot : ∀ w, (k', w) ∉ rest := fun w hw =>
          lt_irrefl _ (hcons.1 k' (List.mem_map_of_mem (f := Prod.fst) hw))
        simp [hnot, eq_comm]
      · have hk' : k ≠ k' := Ne.symm hk
        have hrest := ih hcons.2
        simp only at hrest
        simp [hk, hk', hrest]

/-- Two strictly sorted lists with the same members are equal. -/
theorem eq_of_mem_iff {l l' : List κ} (h : l.Pairwise (· < ·))
    (h' : l'.Pairwise (· < ·)) (hmem : ∀ k, k ∈ l ↔ k ∈ l') : l = l' := by
  have hperm : l.Perm l' := (List.perm_ext_iff_of_nodup
    (h.imp (fun hab => hab.ne)) (h'.imp (fun hab => hab.ne))).mpr hmem
  exact hperm.eq_of_pairwise
    (fun a b _ _ hab hba => absurd hab (not_lt.mpr hba.le)) h h'

/-- **Extensionality.**  A sorted map is determined by its lookups. -/
theorem ext_lookup {m n : SortedMap κ β} (h : ∀ k, m.lookup k = n.lookup k) :
    m = n := by
  have hkeys : m.keys = n.keys :=
    eq_of_mem_iff m.sorted n.sorted fun k => by
      rw [mem_keys_iff, mem_keys_iff, h]
  apply SortedMap.ext
  apply List.ext_getElem
  · simpa [keys] using congrArg List.length hkeys
  · intro i hi hi'
    have hkey : (m.entries[i]).1 = (n.entries[i]).1 := by
      have := List.getElem_of_eq hkeys (i := i) (by simpa [keys] using hi)
      simpa [keys] using this
    have hm : n.lookup m.entries[i].1 = some m.entries[i].2 := by
      rw [← h]
      exact (mem_entries_iff m _ _).mp (List.getElem_mem hi)
    have hn : n.lookup n.entries[i].1 = some n.entries[i].2 :=
      (mem_entries_iff n _ _).mp (List.getElem_mem hi')
    rw [hkey, hn] at hm
    exact Prod.ext hkey (Option.some.inj hm).symm

/-- Inserting a key above all others appends its entry. -/
theorem entries_insert_of_forall_lt {m : SortedMap κ β} {k : κ} (v : β)
    (h : ∀ key ∈ m.keys, key < k) :
    (m.insert k v).entries = m.entries ++ [(k, v)] := by
  unfold insert
  simp only [keys] at h ⊢
  generalize m.entries = l at h
  induction l with
  | nil => rfl
  | cons entry rest ih =>
      obtain ⟨k', v'⟩ := entry
      have hlt : k' < k := h k' (by simp)
      simp only [insertEntry, not_lt.mpr hlt.le, hlt.ne', if_false, List.cons_append]
      rw [ih fun key hkey => h key (List.mem_cons_of_mem _ hkey)]

/-- Inserting sorted entries one by one rebuilds their list. -/
theorem foldl_insert_entries (m : SortedMap κ β) :
    m.entries.foldl (fun acc entry => acc.insert entry.1 entry.2) empty = m := by
  obtain ⟨entries, sorted⟩ := m
  induction entries using List.reverseRecOn with
  | nil => rfl
  | append_singleton rest entry ih =>
      have hsplit := List.pairwise_append.mp (List.map_append ▸ sorted)
      have hrest := ih hsplit.1
      apply SortedMap.ext
      simp only at hrest
      rw [List.foldl_append, hrest]
      refine entries_insert_of_forall_lt _ fun key hkey => ?_
      exact hsplit.2.2 key hkey entry.1 (by simp)

end SortedMap
