import Mathlib.Data.List.DropRight
import Mathlib.Data.List.Lex
import Mathlib.Order.Basic
import Mathlib.Tactic.Common

/-!
# Byte strings

A `std::string` is a list of bytes; any byte may occur in it, NUL included.
This file has the string searches and the `<cctype>` classes of the C locale,
and the lexicographic order (by unsigned byte, as `char_traits` compares) that
orders the keys of a `std::map`.
-/

instance instLinearOrderUInt8 : LinearOrder UInt8 where
  le_refl a := by simp
  le_trans a b c := by simpa [UInt8.le_iff_toNat_le] using Nat.le_trans
  lt_iff_le_not_ge a b := by
    simpa [UInt8.le_iff_toNat_le, UInt8.lt_iff_toNat_lt] using Nat.le_of_lt
  le_antisymm a b hab hba := by
    rw [UInt8.le_iff_toNat_le] at hab hba
    exact UInt8.toNat_inj.mp (Nat.le_antisymm hab hba)
  le_total a b := by simpa [UInt8.le_iff_toNat_le] using Nat.le_total _ _
  toDecidableLE := inferInstance
  toDecidableEq := inferInstance

/-- The bytes of a `std::string`. -/
abbrev Bytes := List UInt8

instance lawfulBEqBytes : LawfulBEq Bytes := inferInstance

namespace ByteStrings

/-- The bytes of an ASCII literal. -/
def ascii (text : String) : Bytes :=
  text.toList.map fun c => UInt8.ofNat c.toNat

@[match_pattern] abbrev quote : UInt8 := 34
@[match_pattern] abbrev backslash : UInt8 := 92
@[match_pattern] abbrev openBrace : UInt8 := 123
@[match_pattern] abbrev closeBrace : UInt8 := 125
@[match_pattern] abbrev openBracket : UInt8 := 91
@[match_pattern] abbrev closeBracket : UInt8 := 93
@[match_pattern] abbrev comma : UInt8 := 44
@[match_pattern] abbrev colon : UInt8 := 58
@[match_pattern] abbrev plus : UInt8 := 43
@[match_pattern] abbrev minus : UInt8 := 45
@[match_pattern] abbrev point : UInt8 := 46
@[match_pattern] abbrev zeroDigit : UInt8 := 48
@[match_pattern] abbrev blank : UInt8 := 32
@[match_pattern] abbrev slash : UInt8 := 47
@[match_pattern] abbrev newline : UInt8 := 10
@[match_pattern] abbrev hash : UInt8 := 35
@[match_pattern] abbrev equals : UInt8 := 61

/-- `std::isspace` in the C locale: space, `\t`, `\n`, `\v`, `\f`, `\r`. -/
def isspace (c : UInt8) : Bool := c == 32 || (9 ≤ c && c ≤ 13)

/-- `std::isupper` in the C locale. -/
def isupper (c : UInt8) : Bool := 65 ≤ c && c ≤ 90

/-- `std::tolower` in the C locale. -/
def tolower (c : UInt8) : UInt8 := if isupper c then c + 32 else c

/-- `std::isdigit`. -/
def isdigit (c : UInt8) : Bool := 48 ≤ c && c ≤ 57

/-- `std::isxdigit`. -/
def isxdigit (c : UInt8) : Bool :=
  isdigit c || (65 ≤ c && c ≤ 70) || (97 ≤ c && c ≤ 102)

/-- Every byte in lower case. -/
def toLower (s : Bytes) : Bytes := s.map tolower

/-- Index of the first occurrence of `pat`. -/
def findIndex (pat : Bytes) : Bytes → Option Nat
  | [] => if pat.isEmpty then some 0 else none
  | c :: rest =>
      if pat.isPrefixOf (c :: rest) then some 0
      else (findIndex pat rest).map (· + 1)

/-- `s.find(pat, pos)`; `none` is `npos`. -/
def find (s pat : Bytes) (pos : Nat) : Option Nat :=
  if pos ≤ s.length then (findIndex pat (s.drop pos)).map (· + pos) else none

/-- `s.substr(pos, len)`. -/
def substr (s : Bytes) (pos len : Nat) : Bytes := (s.drop pos).take len

/-- `s.find(pat) != npos`. -/
def contains (s pat : Bytes) : Bool := (findIndex pat s).isSome

/-- `s.c_str()` as a C function sees it: the bytes before the first NUL. -/
def cString (s : Bytes) : Bytes := s.takeWhile (· != 0)

/-- Remove the bytes of class `p` from both ends. -/
def trimBoth (p : UInt8 → Bool) (s : Bytes) : Bytes :=
  (s.dropWhile p).rdropWhile p

/-- `findIndex` gives the first position at which the pattern starts. -/
theorem findIndex_eq_some_iff {pat s : Bytes} {k : Nat} :
    findIndex pat s = some k ↔
      k ≤ s.length ∧ pat <+: s.drop k ∧ ∀ j < k, ¬ pat <+: s.drop j := by
  induction s generalizing k with
  | nil =>
      simp only [findIndex, List.isEmpty_iff, List.drop_nil, List.prefix_nil, List.length_nil]
      constructor
      · intro h
        split_ifs at h with hpat
        have hk := Option.some.inj h
        exact ⟨by omega, hpat, by omega⟩
      · intro h
        have hk : k = 0 := by omega
        rw [if_pos h.2.1, hk]
  | cons c rest ih =>
      simp only [findIndex, List.isPrefixOf_iff_prefix]
      split_ifs with hhead
      · constructor
        · intro h
          have hk := Option.some.inj h
          subst hk
          exact ⟨Nat.zero_le _, hhead, by omega⟩
        · intro h
          have hk : k = 0 := by
            by_contra hne
            exact h.2.2 0 (by omega) hhead
          rw [hk]
      · rw [Option.map_eq_some_iff]
        constructor
        · intro h
          obtain ⟨m, hm, hk⟩ := h
          subst hk
          obtain ⟨hle, hpre, hfirst⟩ := ih.mp hm
          refine ⟨Nat.succ_le_succ hle, hpre, ?_⟩
          intro j hj
          cases j with
          | zero => exact hhead
          | succ j => exact hfirst j (by omega)
        · intro h
          cases k with
          | zero => exact absurd h.2.1 hhead
          | succ k =>
              refine ⟨k, ih.mpr ⟨Nat.le_of_succ_le_succ h.1, h.2.1, ?_⟩, rfl⟩
              intro j hj
              exact h.2.2 (j + 1) (by omega)

/-- `find` gives the first position from `pos` on at which the pattern starts. -/
theorem find_eq_some_iff {s pat : Bytes} {pos k : Nat} :
    find s pat pos = some k ↔
      pos ≤ k ∧ k ≤ s.length ∧ pat <+: s.drop k ∧
        ∀ j, pos ≤ j → j < k → ¬ pat <+: s.drop j := by
  unfold find
  split_ifs with hpos
  · rw [Option.map_eq_some_iff]
    constructor
    · intro h
      obtain ⟨m, hm, hk⟩ := h
      subst hk
      obtain ⟨hle, hpre, hfirst⟩ := findIndex_eq_some_iff.mp hm
      rw [List.length_drop] at hle
      rw [List.drop_drop] at hpre
      refine ⟨by omega, by omega, by rwa [Nat.add_comm], ?_⟩
      intro j hj hjk
      have hnot := hfirst (j - pos) (by omega)
      rwa [List.drop_drop, Nat.add_sub_cancel' hj] at hnot
    · intro h
      obtain ⟨hle, hlen, hpre, hfirst⟩ := h
      refine ⟨k - pos, findIndex_eq_some_iff.mpr ⟨?_, ?_, ?_⟩, Nat.sub_add_cancel hle⟩
      · rw [List.length_drop]
        omega
      · rwa [List.drop_drop, Nat.add_sub_cancel' hle]
      · intro j hj
        rw [List.drop_drop]
        exact hfirst (pos + j) (by omega) (by omega)
  · constructor
    · intro h
      cases h
    · intro h
      omega

/-- The found occurrence lies inside the string. -/
theorem find_length {s pat : Bytes} {pos k : Nat} (h : find s pat pos = some k) :
    pos ≤ k ∧ k + pat.length ≤ s.length := by
  obtain ⟨hle, hlen, hpre, -⟩ := find_eq_some_iff.mp h
  have hlength := hpre.length_le
  rw [List.length_drop] at hlength
  omega

/-- A pattern that ends within the first `n` bytes does not see the cut. -/
theorem prefix_drop_take_iff {s pat : Bytes} {n j : Nat} (h : j + pat.length ≤ n) :
    pat <+: (s.take n).drop j ↔ pat <+: s.drop j := by
  rw [List.drop_take, List.prefix_take_iff]
  constructor
  · intro hpre
    exact hpre.1
  · intro hpre
    exact ⟨hpre, by omega⟩

/-- **Searching a prefix.**  An occurrence that ends within the first `n` bytes
is found in them just as in the whole string. -/
theorem find_take {s pat : Bytes} {n pos k : Nat} (h : k + pat.length ≤ n) :
    find (s.take n) pat pos = some k ↔ find s pat pos = some k := by
  rw [find_eq_some_iff, find_eq_some_iff, prefix_drop_take_iff h]
  have hfirst : (∀ j, pos ≤ j → j < k → ¬ pat <+: (s.take n).drop j) ↔
      ∀ j, pos ≤ j → j < k → ¬ pat <+: s.drop j := by
    constructor
    · intro hno j hj hjk
      rw [← prefix_drop_take_iff (n := n) (by omega)]
      exact hno j hj hjk
    · intro hno j hj hjk
      rw [prefix_drop_take_iff (by omega)]
      exact hno j hj hjk
  rw [hfirst, List.length_take]
  constructor
  · intro hfound
    exact ⟨hfound.1, by omega, hfound.2.2⟩
  · intro hfound
    exact ⟨hfound.1, by omega, hfound.2.2⟩

/-- An occurrence bounds what the search finds. -/
theorem exists_find_le {s pat : Bytes} {pos k : Nat} (hpos : pos ≤ k) (hk : k ≤ s.length)
    (hpre : pat <+: s.drop k) : ∃ j, find s pat pos = some j ∧ j ≤ k := by
  induction h : k - pos using Nat.strongRecOn generalizing k with
  | _ d ih =>
      by_cases hfirst : ∃ j, pos ≤ j ∧ j < k ∧ pat <+: s.drop j
      · obtain ⟨j, hj, hjk, hprej⟩ := hfirst
        obtain ⟨i, hi, hij⟩ := ih (j - pos) (by omega) hj (by omega) hprej rfl
        exact ⟨i, hi, by omega⟩
      · refine ⟨k, find_eq_some_iff.mpr ⟨hpos, hk, hpre, ?_⟩, Nat.le_refl k⟩
        intro j hj hjk hprej
        exact hfirst ⟨j, hj, hjk, hprej⟩

/-- What a string contains can be found from its start. -/
theorem contains_iff {s pat : Bytes} : contains s pat = true ↔ ∃ k, find s pat 0 = some k := by
  unfold contains find
  rw [Option.isSome_iff_exists, if_pos (Nat.zero_le _), List.drop_zero]
  simp only [Nat.add_zero, Option.map_id']

/-- A piece that ends within the first `n` bytes does not see the cut. -/
theorem substr_take {s : Bytes} {pos len n : Nat} (h : pos + len ≤ n) :
    substr (s.take n) pos len = substr s pos len := by
  unfold substr
  rw [List.drop_take, List.take_take, Nat.min_eq_left (by omega)]

/-- **Where the pattern first ends.**  A prefix has an occurrence when it
reaches to the end of the first one. -/
theorem contains_take_iff {s pat : Bytes} {n k : Nat} (h : find s pat 0 = some k) :
    contains (s.take n) pat = true ↔ k + pat.length ≤ n := by
  rw [contains_iff]
  constructor
  · intro hcontains
    obtain ⟨j, hj⟩ := hcontains
    have hlength := (find_length hj).2
    rw [List.length_take] at hlength
    rw [find_take (by omega), h] at hj
    cases hj
    omega
  · intro hle
    exact ⟨k, (find_take hle).mpr h⟩

/-- Where the pattern does not start, it is searched in the rest. -/
theorem find_cons {c : UInt8} {s pat : Bytes} (h : ¬ pat <+: c :: s) :
    find (c :: s) pat 0 = (find s pat 0).map (· + 1) := by
  unfold find
  simp only [Nat.zero_le, if_true, List.drop_zero, findIndex]
  rw [if_neg (by rwa [List.isPrefixOf_iff_prefix]), Option.map_map, Option.map_map]
  rfl

theorem find_of_prefix {s pat : Bytes} (h : pat <+: s) : find s pat 0 = some 0 :=
  find_eq_some_iff.mpr ⟨Nat.le_refl 0, Nat.zero_le _, h, fun _ _ hj => absurd hj (Nat.not_lt_zero _)⟩

/-- Bytes that do not start the pattern are passed over. -/
theorem find_skip {pat l s : Bytes} {p : UInt8} (hpat : pat.head? = some p) (hl : p ∉ l) :
    find (l ++ s) pat 0 = (find s pat 0).map (· + l.length) := by
  obtain ⟨ps, rfl⟩ := List.head?_eq_some_iff.mp hpat
  induction l with
  | nil => simp
  | cons c l ih =>
      rw [List.mem_cons, not_or] at hl
      rw [List.cons_append, find_cons, ih hl.2, Option.map_map]
      · rfl
      · intro hprefix
        exact hl.1 (List.cons_prefix_cons.mp hprefix).1

/-- A pattern whose first byte does not occur in `l` is found behind `l`. -/
theorem find_append {pat l rest : Bytes} {p : UInt8} (hpat : pat.head? = some p)
    (hl : p ∉ l) (hrest : pat <+: rest) : find (l ++ rest) pat 0 = some l.length := by
  rw [find_skip hpat hl, find_of_prefix hrest, Option.map_some, Nat.zero_add]

/-- A search from a position on sees what follows it. -/
theorem find_at (pre s pat : Bytes) :
    find (pre ++ s) pat pre.length = (find s pat 0).map (· + pre.length) := by
  unfold find
  simp

@[simp]
theorem substr_left (l rest : Bytes) : substr (l ++ rest) 0 l.length = l := by
  rw [substr, List.drop_zero, List.take_left]

/-- The rest behind a separator. -/
@[simp]
theorem drop_separator (l rest : Bytes) (c : UInt8) :
    (l ++ c :: rest).drop (l.length + 1) = rest := by
  rw [← List.drop_drop, List.drop_left, List.drop_one, List.tail_cons]

/-- A pattern whose first byte does not occur is not found. -/
theorem find_eq_none {s pat : Bytes} {p : UInt8} (hpat : pat.head? = some p) (hs : p ∉ s)
    (pos : Nat) : find s pat pos = none := by
  obtain ⟨ps, rfl⟩ := List.head?_eq_some_iff.mp hpat
  by_contra hfound
  obtain ⟨k, hk⟩ := Option.ne_none_iff_exists'.mp hfound
  obtain ⟨-, -, ⟨rest, hrest⟩, -⟩ := find_eq_some_iff.mp hk
  apply hs
  apply List.mem_of_mem_drop (i := k)
  rw [← hrest]
  exact List.mem_cons_self

/-- A piece does not have the separator, and its bytes are bytes of the whole. -/
theorem of_mem_splitOn {separator : UInt8} {s piece : Bytes} (hpiece : piece ∈ s.splitOn separator) :
    separator ∉ piece ∧ ∀ c ∈ piece, c ∈ s := by
  induction s generalizing piece with
  | nil =>
      rw [List.splitOn_nil, List.mem_singleton] at hpiece
      subst hpiece
      exact ⟨List.not_mem_nil, fun c hc => hc⟩
  | cons c s ih =>
      rw [List.splitOn_cons_eq_if_modifyHead] at hpiece
      by_cases hseparator : (c == separator) = true
      · rw [if_pos hseparator] at hpiece
        rcases List.mem_cons.mp hpiece with rfl | hpiece
        · exact ⟨List.not_mem_nil, List.forall_mem_nil _⟩
        · exact ⟨(ih hpiece).1, fun d hd => List.mem_cons_of_mem _ ((ih hpiece).2 d hd)⟩
      · rw [if_neg hseparator] at hpiece
        cases hpieces : s.splitOn separator with
        | nil => exact absurd hpieces (List.splitOn_ne_nil _ _)
        | cons first rest =>
            rw [hpieces] at ih hpiece
            rcases List.mem_cons.mp hpiece with rfl | hpiece
            · obtain ⟨hplain, hmem⟩ := ih List.mem_cons_self
              refine ⟨?_, fun d hd => ?_⟩
              · intro h
                rcases List.mem_cons.mp h with h | h
                · exact hseparator (by simp [h])
                · exact hplain h
              · rcases List.mem_cons.mp hd with rfl | hd
                · exact List.mem_cons_self
                · exact List.mem_cons_of_mem _ (hmem d hd)
            · obtain ⟨hplain, hmem⟩ := ih (List.mem_cons_of_mem _ hpiece)
              exact ⟨hplain, fun d hd => List.mem_cons_of_mem _ (hmem d hd)⟩

/-- Neither the first nor the last byte is in the class. -/
def Trimmed (p : UInt8 → Bool) (s : Bytes) : Prop :=
  (∀ c ∈ s.head?, p c = false) ∧ ∀ c ∈ s.getLast?, p c = false

section Trimming

variable {p : UInt8 → Bool}

/-- What is dropped from the end anyway can be put there. -/
theorem rdropWhile_append_of_pos {right : Bytes} (h : ∀ c ∈ right, p c = true) (s : Bytes) :
    (s ++ right).rdropWhile p = s.rdropWhile p := by
  unfold List.rdropWhile
  rw [List.reverse_append, List.dropWhile_append_of_pos]
  intro c hc
  exact h c (List.mem_reverse.mp hc)

/-- The text between bytes of the class is what trimming leaves. -/
theorem trimBoth_eq {left s right : Bytes} (hleft : ∀ c ∈ left, p c = true)
    (hright : ∀ c ∈ right, p c = true) (hs : Trimmed p s) :
    trimBoth p (left ++ s ++ right) = s := by
  obtain ⟨hhead, hlast⟩ := hs
  rw [trimBoth, List.append_assoc, List.dropWhile_append_of_pos hleft]
  cases s with
  | nil =>
      rw [List.nil_append, List.dropWhile_eq_nil_iff.mpr hright, List.rdropWhile_nil]
  | cons c rest =>
      rw [List.cons_append, List.dropWhile_cons_of_neg (by simp [hhead c rfl]), ← List.cons_append,
        rdropWhile_append_of_pos hright, List.rdropWhile_eq_self_iff]
      intro hne
      rw [hlast _ (List.getLast?_eq_some_getLast hne)]
      exact Bool.false_ne_true

theorem trimBoth_of_trimmed {s : Bytes} (h : Trimmed p s) : trimBoth p s = s := by
  have hempty := trimBoth_eq (List.forall_mem_nil _) (List.forall_mem_nil _) h
  rwa [List.nil_append, List.append_nil] at hempty

/-- One byte that is not dropped makes a trimmed string. -/
theorem trimmed_singleton {c : UInt8} (h : p c = false) : Trimmed p [c] := by
  constructor
  · intro d hd
    cases hd
    exact h
  · intro d hd
    cases hd
    exact h

/-- What was trimmed is trimmed. -/
theorem trimmed_trimBoth (p : UInt8 → Bool) (s : Bytes) : Trimmed p (trimBoth p s) := by
  constructor
  · intro c hc
    obtain ⟨rest, hrest⟩ := List.rdropWhile_prefix p (s.dropWhile p)
    have hhead : c ∈ (s.dropWhile p).head? := by
      rw [← hrest]
      exact List.mem_head?_append_of_mem_head? hc
    have hnot := List.head?_dropWhile_not p s
    rw [Option.mem_def.mp hhead] at hnot
    simpa using hnot
  · intro c hc
    obtain ⟨hne, rfl⟩ := List.mem_getLast?_eq_getLast hc
    have hnot := List.rdropWhile_last_not p (s.dropWhile p) hne
    rwa [Bool.not_eq_true] at hnot

/-- What trimming takes away. -/
theorem exists_trimBoth (p : UInt8 → Bool) (s : Bytes) :
    ∃ left right, s = left ++ trimBoth p s ++ right ∧ (∀ c ∈ left, p c = true) ∧
      ∀ c ∈ right, p c = true := by
  refine ⟨s.takeWhile p, (s.dropWhile p).rtakeWhile p, ?_, ?_, ?_⟩
  · rw [trimBoth, List.append_assoc, List.rdropWhile_append_rtakeWhile,
      List.takeWhile_append_dropWhile]
  · intro c hc
    exact List.mem_takeWhile_imp hc
  · intro c hc
    exact List.mem_rtakeWhile_imp hc

/-- What is put around a text is trimmed away with the rest. -/
theorem trimBoth_append {left right : Bytes} (hleft : ∀ c ∈ left, p c = true)
    (hright : ∀ c ∈ right, p c = true) (s : Bytes) :
    trimBoth p (left ++ s ++ right) = trimBoth p s := by
  obtain ⟨left', right', hparts, hleft', hright'⟩ := exists_trimBoth p s
  have hwhole : left ++ s ++ right =
      left ++ left' ++ trimBoth p s ++ (right' ++ right) := by
    calc left ++ s ++ right = left ++ (left' ++ trimBoth p s ++ right') ++ right := by rw [← hparts]
      _ = left ++ left' ++ trimBoth p s ++ (right' ++ right) := by
        simp only [List.append_assoc]
  rw [hwhole]
  exact trimBoth_eq (List.forall_mem_append.mpr ⟨hleft, hleft'⟩)
    (List.forall_mem_append.mpr ⟨hright', hright⟩) (trimmed_trimBoth p s)

end Trimming

end ByteStrings
