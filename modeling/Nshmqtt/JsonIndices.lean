import Nshmqtt.CheckedReads
import Nshmqtt.JsonUtil

/-!
# The JSON reader by index

`json_util.cpp` moves an index over the text.  Here every read, every slice and every difference
of indices is checked, and the scanners are shown to do what those over the rest of the text do,
without a fault, for every text.

* `skipToQuoteAt_spec`, `skipNestedAt_spec`, `jsonUnescapeFrom_spec`, `readMemberAt_spec` : each
  scanner follows the one of `JsonUtil`;
* `tokenizeFlatObjectAt_eq` : so does the tokenizer;
* `tokenizer_in_bounds` : what this says about indices.
-/

namespace Nshmqtt

open ByteStrings CheckedReads

def skipWsAt (s : Bytes) (i : Nat) : Checked Nat :=
  if i < s.length then do
    let c ← readAt s i
    if isspace c then skipWsAt s (i + 1) else return i
  else return i
  termination_by s.length - i

/-- The loop of `skip_json_string`. -/
def skipToQuoteAt (s : Bytes) (i : Nat) : Checked (Option Nat) :=
  if i < s.length then do
    let c ← readAt s i
    if c = backslash then skipToQuoteAt s (i + 2)
    else if c = quote then return some (i + 1)
    else skipToQuoteAt s (i + 1)
  else return none
  termination_by s.length - i

def skipJsonStringAt (s : Bytes) (i : Nat) : Checked (Option Nat) := skipToQuoteAt s (i + 1)

/-- An optional index and an optional rest, both absent or at one place. -/
abbrev SamePlace (s : Bytes) : Option Nat → Option Bytes → Prop := Option.Rel (IsAt s)

/-- An index with less behind it than behind the start lies behind the start. -/
theorem samePlace_bounds {s rest : Bytes} {i : Nat} {r : Option Nat} {found : Option Bytes}
    (hstart : IsAt s i rest) (h : SamePlace s r found)
    (hshorter : ∀ after, found = some after → after.length < rest.length) :
    ∀ j ∈ r, i < j ∧ j ≤ s.length := by
  cases h with
  | none =>
      intro j hj
      cases hj
  | some hend =>
      intro j hj
      cases hj
      exact ⟨hstart.lt_of_length_lt hend (hshorter _ rfl), hend.le⟩

/-- Whitespace is skipped in bounds. -/
theorem skipWsAt_spec {s rest : Bytes} {i : Nat} (h : IsAt s i rest) :
    ∃ j, skipWsAt s i = .ok j ∧ IsAt s j (skipWs rest) := by
  induction rest generalizing i with
  | nil =>
      refine ⟨i, ?_, h⟩
      rw [skipWsAt, if_neg h.not_lt]
      rfl
  | cons c rest ih =>
      rw [skipWsAt, if_pos h.lt, h.read, skipWs]
      by_cases hspace : isspace c = true
      · rw [List.dropWhile_cons_of_pos hspace]
        obtain ⟨j, hj, hplace⟩ := ih h.next
        refine ⟨j, ?_, hplace⟩
        rw [← hj]
        exact if_pos hspace
      · rw [List.dropWhile_cons_of_neg hspace]
        exact ⟨i, if_neg hspace, h⟩

/-- At the end of the text there is no quote. -/
theorem skipToQuoteAt_of_le {s : Bytes} {i : Nat} (h : s.length ≤ i) :
    skipToQuoteAt s i = .ok none := by
  rw [skipToQuoteAt, if_neg (Nat.not_lt.mpr h)]
  rfl

/-- A string is skipped in bounds, up to its quote. -/
theorem skipToQuoteAt_spec {s rest : Bytes} {i : Nat} (h : IsAt s i rest) :
    ∃ r, skipToQuoteAt s i = .ok r ∧ SamePlace s r (skipToQuote rest) := by
  fun_induction skipToQuote rest generalizing i with
  | case1 => exact ⟨none, skipToQuoteAt_of_le (Nat.not_lt.mp h.not_lt), .none⟩
  | case2 =>
      -- The step over the escaped byte goes past the end.
      refine ⟨none, ?_, .none⟩
      have hlength := h.length
      rw [skipToQuoteAt, if_pos h.lt, h.read]
      exact skipToQuoteAt_of_le (by simp at hlength; omega)
  | case3 e rest ih =>
      obtain ⟨r, hr, hplace⟩ := ih h.next.next
      refine ⟨r, ?_, hplace⟩
      rw [skipToQuoteAt, if_pos h.lt, h.read]
      exact hr
  | case4 rest hback =>
      refine ⟨some (i + 1), ?_, .some h.next⟩
      rw [skipToQuoteAt, if_pos h.lt, h.read]
      rfl
  | case5 c rest hback hquote ih =>
      obtain ⟨r, hr, hplace⟩ := ih h.next
      refine ⟨r, ?_, hplace⟩
      rw [skipToQuoteAt, if_pos h.lt, h.read, ← hr]
      exact (if_neg hback).trans (if_neg hquote)

/-- A string ends behind its start and inside the text. -/
theorem skipJsonStringAt_bounds (s : Bytes) (i : Nat) :
    ∃ r, skipJsonStringAt s i = .ok r ∧ ∀ j ∈ r, i < j ∧ j ≤ s.length := by
  by_cases hi : i + 1 ≤ s.length
  · have hstart := isAt_drop hi
    obtain ⟨r, hr, hplace⟩ := skipToQuoteAt_spec hstart
    have hbounds := samePlace_bounds hstart hplace fun _ => skipToQuote_length
    refine ⟨r, hr, ?_⟩
    intro j hj
    obtain ⟨hlt, hle⟩ := hbounds j hj
    exact ⟨Nat.lt_of_succ_lt hlt, hle⟩
  · exact ⟨none, skipToQuoteAt_of_le (by omega), by simp⟩

/-- The nesting loop of `skip_json_value`. -/
def skipNestedAt (opening closing : UInt8) (s : Bytes) : Nat → Nat → Checked (Option Nat)
  | 0, i => return some i
  | depth + 1, i =>
      if i < s.length then do
        let c ← readAt s i
        if c = quote then
          match _hstring : skipJsonStringAt s i with
          | .error fault => .error fault
          | .ok none => return none
          | .ok (some j) => skipNestedAt opening closing s (depth + 1) j
        else if c = opening then skipNestedAt opening closing s (depth + 2) (i + 1)
        else if c = closing then skipNestedAt opening closing s depth (i + 1)
        else skipNestedAt opening closing s (depth + 1) (i + 1)
      else return none
  termination_by _ i => s.length - i
  decreasing_by
    · obtain ⟨r, hr, hbounds⟩ := skipJsonStringAt_bounds s i
      rw [_hstring] at hr
      cases hr
      have hj := hbounds j rfl
      omega
    all_goals omega

/-- A string inside of a nested value. -/
theorem skipNestedAt_string {opening closing : UInt8} {s : Bytes} {depth i : Nat}
    {r : Option Nat} (hi : i < s.length) (hread : readAt s i = .ok quote)
    (hstring : skipJsonStringAt s i = .ok r) :
    skipNestedAt opening closing s (depth + 1) i =
      r.elim (.ok none) fun j => skipNestedAt opening closing s (depth + 1) j := by
  rw [skipNestedAt, if_pos hi, hread]
  rw [ok_bind]
  rw [if_pos rfl]
  split
  · rename_i fault hfault
    rw [hstring] at hfault
    cases hfault
  · rename_i hnone
    rw [hstring] at hnone
    cases hnone
    rfl
  · rename_i j hsome
    rw [hstring] at hsome
    cases hsome
    rfl

/-- Another byte inside of a nested value. -/
theorem skipNestedAt_byte {opening closing c : UInt8} {s : Bytes} {depth i : Nat}
    (hi : i < s.length) (hread : readAt s i = .ok c) (hquote : c ≠ quote) :
    skipNestedAt opening closing s (depth + 1) i =
      if c = opening then skipNestedAt opening closing s (depth + 2) (i + 1)
      else if c = closing then skipNestedAt opening closing s depth (i + 1)
      else skipNestedAt opening closing s (depth + 1) (i + 1) := by
  rw [skipNestedAt, if_pos hi, hread]
  exact if_neg hquote

/-- A nested value is skipped in bounds, by induction over the text that is left. -/
theorem skipNestedAt_spec {opening closing : UInt8} {s rest : Bytes} {depth i : Nat}
    (h : IsAt s i rest) :
    ∃ r, skipNestedAt opening closing s depth i = .ok r ∧
      SamePlace s r (skipNested opening closing depth rest) := by
  fun_induction skipNested opening closing depth rest generalizing i with
  | case1 rest =>
      refine ⟨some i, ?_, .some h⟩
      rw [skipNestedAt]
      rfl
  | case2 =>
      refine ⟨none, ?_, .none⟩
      rw [skipNestedAt, if_neg h.not_lt]
      rfl
  | case3 depth rest hstring =>
      obtain ⟨r, hr, hplace⟩ := skipToQuoteAt_spec h.next
      rw [skipJsonString, List.tail_cons] at hstring
      rw [hstring] at hplace
      cases hplace
      exact ⟨none, skipNestedAt_string h.lt h.read hr, .none⟩
  | case4 depth rest after hstring ih =>
      obtain ⟨r, hr, hplace⟩ := skipToQuoteAt_spec h.next
      rw [skipJsonString, List.tail_cons] at hstring
      rw [hstring] at hplace
      cases hplace with
      | some hend =>
          rw [skipNestedAt_string h.lt h.read hr]
          exact ih hend
  | case5 depth rest hquote ih =>
      rw [skipNestedAt_byte h.lt h.read hquote, if_pos rfl]
      exact ih h.next
  | case6 depth rest hquote hopening ih =>
      rw [skipNestedAt_byte h.lt h.read hquote, if_neg hopening, if_pos rfl]
      exact ih h.next
  | case7 depth c rest hquote hopening hclosing ih =>
      rw [skipNestedAt_byte h.lt h.read hquote, if_neg hopening, if_neg hclosing]
      exact ih h.next

/-- The loop over a number or a bare word. -/
def skipBareAt (s : Bytes) (i : Nat) : Checked Nat :=
  if i < s.length then do
    let c ← readAt s i
    if endsBareToken c then return i else skipBareAt s (i + 1)
  else return i
  termination_by s.length - i

def skipJsonValueAt (s : Bytes) (i : Nat) : Checked (Option Nat) :=
  if i < s.length then do
    let c ← readAt s i
    if c = quote then skipJsonStringAt s i
    else if c = openBrace then skipNestedAt openBrace closeBrace s 1 (i + 1)
    else if c = openBracket then skipNestedAt openBracket closeBracket s 1 (i + 1)
    else do
      let after ← skipBareAt s i
      return if after > i then some after else none
  else return none

/-- A bare value is skipped in bounds. -/
theorem skipBareAt_spec {s rest : Bytes} {i : Nat} (h : IsAt s i rest) :
    ∃ j, skipBareAt s i = .ok j ∧ IsAt s j (rest.dropWhile fun c => !endsBareToken c) := by
  induction rest generalizing i with
  | nil =>
      refine ⟨i, ?_, h⟩
      rw [skipBareAt, if_neg h.not_lt]
      rfl
  | cons c rest ih =>
      rw [skipBareAt, if_pos h.lt, h.read]
      by_cases hends : endsBareToken c = true
      · rw [List.dropWhile_cons_of_neg (by simp [hends])]
        exact ⟨i, if_pos hends, h⟩
      · rw [List.dropWhile_cons_of_pos (by simp [hends])]
        obtain ⟨j, hj, hplace⟩ := ih h.next
        refine ⟨j, ?_, hplace⟩
        rw [← hj]
        exact if_neg hends

/-- **Every value** is skipped in bounds. -/
theorem skipJsonValueAt_spec {s rest : Bytes} {i : Nat} (h : IsAt s i rest) :
    ∃ r, skipJsonValueAt s i = .ok r ∧ SamePlace s r (skipJsonValue rest) := by
  cases rest with
  | nil =>
      refine ⟨none, ?_, .none⟩
      rw [skipJsonValueAt, if_neg h.not_lt]
      rfl
  | cons c rest =>
      rw [skipJsonValueAt, if_pos h.lt, h.read, skipJsonValue]
      by_cases hquote : c = quote
      · obtain ⟨r, hr, hplace⟩ := skipToQuoteAt_spec h.next
        rw [if_pos hquote]
        exact ⟨r, (if_pos hquote).trans hr, hplace⟩
      · rw [if_neg hquote]
        by_cases hbrace : c = openBrace
        · obtain ⟨r, hr, hplace⟩ := skipNestedAt_spec h.next
          rw [if_pos hbrace]
          exact ⟨r, ((if_neg hquote).trans (if_pos hbrace)).trans hr, hplace⟩
        · rw [if_neg hbrace]
          by_cases hbracket : c = openBracket
          · obtain ⟨r, hr, hplace⟩ := skipNestedAt_spec h.next
            rw [if_pos hbracket]
            exact ⟨r, (((if_neg hquote).trans (if_neg hbrace)).trans (if_pos hbracket)).trans hr,
              hplace⟩
          · rw [if_neg hbracket]
            obtain ⟨j, hj, hplace⟩ := skipBareAt_spec h
            have hi := h.length
            have hend := hplace.length
            refine ⟨if j > i then some j else none, ?_, ?_⟩
            · refine (((if_neg hquote).trans (if_neg hbrace)).trans (if_neg hbracket)).trans ?_
              rw [hj]
              rfl
            · dsimp only
              by_cases hlonger : j > i
              · rw [if_pos hlonger, if_pos (by omega)]
                exact .some hplace
              · rw [if_neg hlonger, if_neg (by omega)]
                exact .none

/-- A value ends behind its start and inside the text. -/
theorem skipJsonValueAt_bounds (s : Bytes) (i : Nat) :
    ∃ r, skipJsonValueAt s i = .ok r ∧ ∀ j ∈ r, i < j ∧ j ≤ s.length := by
  by_cases hi : i ≤ s.length
  · have hstart := isAt_drop hi
    obtain ⟨r, hr, hplace⟩ := skipJsonValueAt_spec hstart
    exact ⟨r, hr, samePlace_bounds hstart hplace fun _ => skipJsonValue_length⟩
  · refine ⟨none, ?_, by simp⟩
    rw [skipJsonValueAt, if_neg (by omega)]
    rfl

/-- The loop over the digits of a `\u` escape, which ends at a byte that is none. -/
def codePointAt (s : Bytes) (i : Nat) : Nat → Nat → Checked (Option Nat)
  | 0, cp => return some cp
  | k + 1, cp => do
      let h ← readAt s i
      match hexValue h with
      | none => return none
      | some digit => codePointAt s (i + 1) k (cp <<< 4 ||| digit)

def jsonUnescapeFrom (s : Bytes) (i : Nat) : Checked Bytes :=
  if i < s.length then do
    let c ← readAt s i
    if c ≠ backslash then return c :: (← jsonUnescapeFrom s (i + 1))
    else if i + 1 ≥ s.length then return []
    else do
      let e ← readAt s (i + 1)
      if e = 117 then
        if i + 1 + 4 ≥ s.length then return e :: (← jsonUnescapeFrom s (i + 2))
        else do
          match ← codePointAt s (i + 2) 4 0 with
          | none => return e :: (← jsonUnescapeFrom s (i + 2))
          | some cp => return utf8 cp ++ (← jsonUnescapeFrom s (i + 6))
      else return unescapeByte e :: (← jsonUnescapeFrom s (i + 2))
  else return []
  termination_by s.length - i

def jsonUnescapeAt (s : Bytes) : Checked Bytes := jsonUnescapeFrom s 0

/-- The digits of an escape are read in bounds. -/
theorem codePointAt_spec {s digits rest : Bytes} {i : Nat} (h : IsAt s i (digits ++ rest))
    (cp : Nat) : codePointAt s i digits.length cp =
      .ok (digits.foldlM (fun cp h => (hexValue h).map (cp <<< 4 ||| ·)) cp) := by
  induction digits generalizing i cp with
  | nil => rfl
  | cons digit digits ih =>
      rw [List.length_cons, codePointAt, IsAt.read h, List.foldlM_cons]
      rw [ok_bind]
      cases hexValue digit with
      | none => rfl
      | some value => exact ih (IsAt.next h) _

/-- The four digits of `\u`. -/
theorem codePointAt_four {s rest : Bytes} {h1 h2 h3 h4 : UInt8} {i : Nat}
    (h : IsAt s i (h1 :: h2 :: h3 :: h4 :: rest)) :
    codePointAt s i 4 0 = .ok (codePoint [h1, h2, h3, h4]) :=
  @codePointAt_spec s [h1, h2, h3, h4] rest i h 0

/-- The loop behind an escaped byte. -/
theorem jsonUnescapeFrom_escape {s rest : Bytes} {c e : UInt8} {i : Nat} (hescape : ¬ c ≠ backslash)
    (h : IsAt s i (c :: e :: rest)) :
    jsonUnescapeFrom s i =
      if e = 117 then
        if i + 1 + 4 ≥ s.length then do return e :: (← jsonUnescapeFrom s (i + 2))
        else do
          match ← codePointAt s (i + 2) 4 0 with
          | none => return e :: (← jsonUnescapeFrom s (i + 2))
          | some cp => return utf8 cp ++ (← jsonUnescapeFrom s (i + 6))
      else do return unescapeByte e :: (← jsonUnescapeFrom s (i + 2)) := by
  have hmore : ¬ i + 1 ≥ s.length := Nat.not_le.mpr h.next.lt
  rw [jsonUnescapeFrom, if_pos h.lt, h.read]
  rw [ok_bind]
  rw [if_neg hescape, if_neg hmore, h.next.read, ok_bind]

/-- A string is unescaped in bounds from every index. -/
theorem jsonUnescapeFrom_spec {s rest : Bytes} {i : Nat} (h : IsAt s i rest) :
    jsonUnescapeFrom s i = .ok (jsonUnescape rest) := by
  fun_induction jsonUnescape rest generalizing i with
  | case1 =>
      rw [jsonUnescapeFrom, if_neg h.not_lt]
      rfl
  | case2 c rest hplain ih =>
      rw [jsonUnescapeFrom, if_pos h.lt, h.read]
      rw [ok_bind]
      rw [if_pos hplain, ih h.next]
      rfl
  | case3 c hescape =>
      have hend : i + 1 ≥ s.length := Nat.not_lt.mp h.next.not_lt
      rw [jsonUnescapeFrom, if_pos h.lt, h.read]
      rw [ok_bind]
      rw [if_neg hescape, if_pos hend]
      rfl
  | case4 c hescape h1 h2 h3 h4 rest hdigits ih =>
      have hlength := h.length
      simp only [List.length_cons] at hlength
      rw [jsonUnescapeFrom_escape hescape h, if_pos rfl, if_neg (by omega),
        codePointAt_four h.next.next, hdigits]
      rw [ok_bind]
      rw [ih h.next.next]
      rfl
  | case5 c hescape h1 h2 h3 h4 rest cp hdigits ih =>
      have hlength := h.length
      simp only [List.length_cons] at hlength
      rw [jsonUnescapeFrom_escape hescape h, if_pos rfl, if_neg (by omega),
        codePointAt_four h.next.next, hdigits]
      rw [ok_bind]
      rw [ih h.next.next.next.next.next.next]
      rfl
  | case6 c hescape short hshort ih =>
      -- With four digits left the text would not be short.
      have hfew : short.length < 4 := by
        by_contra hlong
        obtain ⟨h1, l1, rfl⟩ := List.exists_cons_of_length_pos (l := short) (by omega)
        obtain ⟨h2, l2, rfl⟩ := List.exists_cons_of_length_pos (l := l1) (by simp at hlong; omega)
        obtain ⟨h3, l3, rfl⟩ := List.exists_cons_of_length_pos (l := l2) (by simp at hlong; omega)
        obtain ⟨h4, l4, rfl⟩ := List.exists_cons_of_length_pos (l := l3) (by simp at hlong; omega)
        exact hshort h1 h2 h3 h4 l4 rfl
      have hlength := h.length
      simp only [List.length_cons] at hlength
      rw [jsonUnescapeFrom_escape hescape h, if_pos rfl, if_pos (by omega), ih h.next.next]
      rfl
  | case7 c hescape e rest hletter ih =>
      rw [jsonUnescapeFrom_escape hescape h, if_neg hletter, ih h.next.next]
      rfl

theorem jsonUnescapeAt_eq (s : Bytes) : jsonUnescapeAt s = .ok (jsonUnescape s) :=
  jsonUnescapeFrom_spec (isAt_zero s)

/-- `i < text.size() && text[i] == c`. -/
def expectAt (text : Bytes) (i : Nat) (c : UInt8) : Checked Bool :=
  if i < text.length then do return (← readAt text i) == c
  else return false

/-- The first half of a turn of the tokenizer's loop: the key still escaped, and the index of
the value. -/
def readKeyAt (text : Bytes) (i : Nat) : Checked (Option (Bytes × Nat)) := do
  let i ← skipWsAt text i
  if !(← expectAt text i quote) then return none
  else
    let keyStart := i + 1
    match ← skipJsonStringAt text i with
    | none => return none
    | some afterKey =>
        let rawKey ← sliceAt text keyStart (← minusAt (← minusAt afterKey keyStart) 1)
        let i ← skipWsAt text afterKey
        if !(← expectAt text i colon) then return none
        else return some (rawKey, ← skipWsAt text (i + 1))

/-- One turn of the loop: the pair, and the index behind the value. -/
def readMemberAt (text : Bytes) (i : Nat) : Checked (Option ((Bytes × Bytes) × Nat)) := do
  match ← readKeyAt text i with
  | none => return none
  | some (rawKey, valueStart) =>
      match ← skipJsonValueAt text valueStart with
      | none => return none
      | some valueEnd =>
          let key ← jsonUnescapeAt rawKey
          let value ← sliceAt text valueStart (← minusAt valueEnd valueStart)
          return some ((key, value), ← skipWsAt text valueEnd)

/-- An expected byte is looked for in bounds. -/
theorem expectAt_spec {text rest : Bytes} {i : Nat} (h : IsAt text i rest) (c : UInt8) :
    (∃ after, expect c rest = some after ∧ expectAt text i c = .ok true ∧
        IsAt text (i + 1) after) ∨
      (expect c rest = none ∧ expectAt text i c = .ok false) := by
  cases rest with
  | nil =>
      refine .inr ⟨rfl, ?_⟩
      rw [expectAt, if_neg h.not_lt]
      rfl
  | cons first rest =>
      have hread : expectAt text i c = .ok (first == c) := by
        rw [expectAt, if_pos h.lt, h.read]
        rfl
      rw [hread, expect]
      by_cases hfirst : first = c
      · exact .inl ⟨rest, if_pos hfirst, by rw [hfirst, beq_self_eq_true], h.next⟩
      · exact .inr ⟨if_neg hfirst, by rw [beq_eq_false_iff_ne.mpr hfirst]⟩

/-- The byte is there. -/
theorem expectAt_some {text rest after : Bytes} {i : Nat} {c : UInt8} (h : IsAt text i rest)
    (hexpect : expect c rest = some after) :
    expectAt text i c = .ok true ∧ IsAt text (i + 1) after := by
  rcases expectAt_spec h c with ⟨next, hnext, hread, hplace⟩ | ⟨hnone, -⟩
  · rw [hexpect] at hnext
    cases hnext
    exact ⟨hread, hplace⟩
  · rw [hexpect] at hnone
    cases hnone

/-- The byte is not there. -/
theorem expectAt_none {text rest : Bytes} {i : Nat} {c : UInt8} (h : IsAt text i rest)
    (hexpect : expect c rest = none) : expectAt text i c = .ok false := by
  rcases expectAt_spec h c with ⟨next, hnext, -, -⟩ | ⟨-, hread⟩
  · rw [hexpect] at hnext
    cases hnext
  · exact hread

/-- Equal data, with an index and with the rest that starts there. -/
def SameRead {β : Type} (text : Bytes) (a : β × Nat) (b : β × Bytes) : Prop :=
  a.1 = b.1 ∧ IsAt text a.2 b.2

/-- The raw key, between its quotes. -/
theorem take_eq_dropLast_consumed {keyText afterKey : Bytes}
    (h : afterKey.length < keyText.length) :
    keyText.take (keyText.length - afterKey.length - 1) =
      (consumed keyText afterKey).dropLast := by
  rw [consumed, List.dropLast_eq_take, List.length_take, List.take_take]
  congr 1
  omega

/-- The first half of `readMember`. -/
def readKey (text : Bytes) : Option (Bytes × Bytes) := do
  let keyText ← expect quote (skipWs text)
  let afterKey ← skipToQuote keyText
  let valueText ← expect colon (skipWs afterKey)
  return ((consumed keyText afterKey).dropLast, skipWs valueText)

/-- A member is a key and the value behind it. -/
theorem readMember_eq (text : Bytes) :
    readMember text = (readKey text).bind fun key => (skipJsonValue key.2).bind fun after =>
      some ((jsonUnescape key.1, consumed key.2 after), skipWs after) := by
  simp only [readMember, readKey, Option.bind_eq_bind, Option.bind_assoc, pure, Option.bind_some]

/-- A key is read in bounds. -/
theorem readKeyAt_spec {text rest : Bytes} {i : Nat} (h : IsAt text i rest) :
    ∃ r, readKeyAt text i = .ok r ∧ Option.Rel (SameRead text) r (readKey rest) := by
  obtain ⟨start, hstart, hplace⟩ := skipWsAt_spec h
  rcases expectAt_spec hplace quote with ⟨keyText, hkey, hquote, hkeyPlace⟩ | ⟨hkey, hquote⟩
  case inr =>
    refine ⟨none, ?_, ?_⟩
    · simp [readKeyAt, hstart, hquote]
    · simp only [readKey, hkey, Option.bind_eq_bind, Option.bind_none]
      exact .none
  obtain ⟨r, hstring, hafterKey⟩ := skipToQuoteAt_spec hkeyPlace
  cases hskip : skipToQuote keyText with
  | none =>
      rw [hskip] at hafterKey
      cases hafterKey
      refine ⟨none, ?_, ?_⟩
      · simp [readKeyAt, hstart, hquote, skipJsonStringAt, hstring]
      · simp only [readKey, hkey, hskip, Option.bind_eq_bind, Option.bind_some, Option.bind_none]
        exact .none
  | some afterKey =>
      rw [hskip] at hafterKey
      cases hafterKey with
      | some hafterPlace =>
          rename_i afterAt
          have hlength := skipToQuote_length hskip
          have hdistance := hkeyPlace.minus hafterPlace hlength
          -- The distance counts the closing quote.
          have hminus : minusAt (keyText.length - afterKey.length) 1 =
              .ok (keyText.length - afterKey.length - 1) := if_pos (by omega)
          have hslice := hkeyPlace.slice hafterPlace hlength (keyText.length - afterKey.length - 1)
          rw [take_eq_dropLast_consumed hlength] at hslice
          obtain ⟨colonAt, hcolonAt, hcolonPlace⟩ := skipWsAt_spec hafterPlace
          rcases expectAt_spec hcolonPlace colon with
            ⟨valueText, hvalue, hcolon, hvaluePlace⟩ | ⟨hvalue, hcolon⟩
          · obtain ⟨valueAt, hvalueAt, hplace⟩ := skipWsAt_spec hvaluePlace
            refine ⟨some ((consumed keyText afterKey).dropLast, valueAt), ?_, ?_⟩
            · simp [readKeyAt, hstart, hquote, skipJsonStringAt, hstring, hdistance, hminus,
                hslice, hcolonAt, hcolon, hvalueAt]
            · simp only [readKey, hkey, hskip, hvalue, Option.bind_eq_bind, Option.bind_some]
              exact .some ⟨rfl, hplace⟩
          · refine ⟨none, ?_, ?_⟩
            · simp [readKeyAt, hstart, hquote, skipJsonStringAt, hstring, hdistance, hminus,
                hslice, hcolonAt, hcolon]
            · simp only [readKey, hkey, hskip, hvalue, Option.bind_eq_bind, Option.bind_some,
                Option.bind_none]
              exact .none

/-- **One turn** reads the member that the turn over the rest reads, and goes as far. -/
theorem readMemberAt_spec {text rest : Bytes} {i : Nat} (h : IsAt text i rest) :
    ∃ r, readMemberAt text i = .ok r ∧ Option.Rel (SameRead text) r (readMember rest) := by
  rw [readMember_eq]
  obtain ⟨r, hkeyAt, hkey⟩ := readKeyAt_spec h
  generalize readKey rest = key at hkey
  cases hkey with
  | none =>
      refine ⟨none, ?_, .none⟩
      simp [readMemberAt, hkeyAt]
  | some hsame =>
      rename_i a b
      obtain ⟨hrawKey, hplace⟩ := hsame
      obtain ⟨valueEnd, hvalueAt, hvalue⟩ := skipJsonValueAt_spec hplace
      rw [Option.bind_some]
      cases hskip : skipJsonValue b.2 with
      | none =>
          rw [hskip] at hvalue
          cases hvalue
          refine ⟨none, ?_, .none⟩
          simp [readMemberAt, hkeyAt, hvalueAt]
      | some after =>
          rw [hskip] at hvalue
          cases hvalue with
          | some hafterPlace =>
              rename_i endAt
              have hlength := skipJsonValue_length hskip
              have hdistance := hplace.minus hafterPlace hlength
              have hslice := hplace.slice hafterPlace hlength (b.2.length - after.length)
              obtain ⟨next, hnext, hnextPlace⟩ := skipWsAt_spec hafterPlace
              refine ⟨some ((jsonUnescape b.1, consumed b.2 after), next), ?_,
                .some ⟨rfl, hnextPlace⟩⟩
              simp [readMemberAt, hkeyAt, hvalueAt, jsonUnescapeAt_eq, hrawKey, hdistance, hslice,
                hnext, consumed]

/-- A turn moves the index on, inside the text. -/
theorem readMemberAt_bounds {text : Bytes} {i next : Nat} {pair : Bytes × Bytes}
    (h : readMemberAt text i = .ok (some (pair, next))) : i < next ∧ next ≤ text.length := by
  by_cases hi : i ≤ text.length
  · have hstart := isAt_drop hi
    obtain ⟨r, hr, hsame⟩ := readMemberAt_spec hstart
    rw [h] at hr
    cases hr
    cases hread : readMember (text.drop i) with
    | none =>
        rw [hread] at hsame
        cases hsame
    | some member =>
        rw [hread] at hsame
        cases hsame with
        | some hplace =>
            have hlength := (readMember_length hread).2
            exact ⟨hstart.lt_of_length_lt hplace.2 hlength, hplace.2.le⟩
  · have hskip : skipWsAt text i = .ok i := by
      rw [skipWsAt, if_neg (by omega)]
      rfl
    have hexpect : expectAt text i quote = .ok false := by
      rw [expectAt, if_neg (by omega)]
      rfl
    simp [readMemberAt, readKeyAt, hskip, hexpect] at h

/-- The loop of `tokenize_flat_object`, from a key on. -/
def tokenizeMembersAt (text : Bytes) (i : Nat) : Checked (Option (List (Bytes × Bytes))) :=
  match _hread : readMemberAt text i with
  | .error fault => .error fault
  | .ok none => .ok none
  | .ok (some (pair, next)) => do
      if ← expectAt text next comma then
        return (← tokenizeMembersAt text (next + 1)).map (pair :: ·)
      else if ← expectAt text next closeBrace then return some [pair]
      else return none
  termination_by text.length - i
  decreasing_by
    have hbounds := readMemberAt_bounds _hread
    omega

def tokenizeFlatObjectAt (text : Bytes) : Checked (Option (List (Bytes × Bytes))) := do
  let i ← skipWsAt text 0
  if !(← expectAt text i openBrace) then return none
  else
    let i ← skipWsAt text (i + 1)
    if ← expectAt text i closeBrace then return some []
    else tokenizeMembersAt text i

/-- One turn of the loop over the members. -/
theorem tokenizeMembersAt_turn {text : Bytes} {i : Nat}
    {r : Option ((Bytes × Bytes) × Nat)} (hread : readMemberAt text i = .ok r) :
    tokenizeMembersAt text i = r.elim (.ok none) fun member => do
      if ← expectAt text member.2 comma then
        return (← tokenizeMembersAt text (member.2 + 1)).map (member.1 :: ·)
      else if ← expectAt text member.2 closeBrace then return some [member.1]
      else return none := by
  rw [tokenizeMembersAt]
  split
  · rename_i fault hfault
    rw [hread] at hfault
    cases hfault
  · rename_i hnone
    rw [hread] at hnone
    cases hnone
    rfl
  · rename_i pair next hsome
    rw [hread] at hsome
    cases hsome
    rfl

/-- **The members** are read in bounds, one after the other. -/
theorem tokenizeMembersAt_spec {text rest : Bytes} {i : Nat} (h : IsAt text i rest) :
    tokenizeMembersAt text i = .ok (tokenizeMembers rest) := by
  obtain ⟨r, hr, hsame⟩ := readMemberAt_spec h
  rw [tokenizeMembersAt_turn hr]
  fun_induction tokenizeMembers rest generalizing i r with
  | case1 rest hread =>
      rw [hread] at hsame
      cases hsame
      rfl
  | case2 rest pair after hread behind hcomma ih =>
      rw [hread] at hsame
      cases hsame with
      | some hplace =>
          rename_i member
          obtain ⟨hpair, hplace⟩ := hplace
          obtain ⟨hexpect, hnextPlace⟩ := expectAt_some hplace hcomma
          obtain ⟨r', hr', hsame'⟩ := readMemberAt_spec hnextPlace
          have htail := ih hnextPlace r' hr' hsame'
          rw [← tokenizeMembersAt_turn hr'] at htail
          simp [hexpect, htail, hpair]
  | case3 rest pair after hread hcomma behind hclose =>
      rw [hread] at hsame
      cases hsame with
      | some hplace =>
          rename_i member
          obtain ⟨hpair, hplace⟩ := hplace
          have hexpect := expectAt_none hplace hcomma
          have hexpect' := (expectAt_some hplace hclose).1
          simp [hexpect, hexpect', hpair]
  | case4 rest pair after hread hcomma hclose =>
      rw [hread] at hsame
      cases hsame with
      | some hplace =>
          rename_i member
          obtain ⟨hpair, hplace⟩ := hplace
          have hexpect := expectAt_none hplace hcomma
          have hexpect' := expectAt_none hplace hclose
          simp [hexpect, hexpect']

/-- **The tokenizer by index** is the one over the rest of the text, and makes no fault. -/
theorem tokenizeFlatObjectAt_eq (text : Bytes) :
    tokenizeFlatObjectAt text = .ok (tokenizeFlatObject text) := by
  obtain ⟨start, hstart, hplace⟩ := skipWsAt_spec (isAt_zero text)
  rw [tokenizeFlatObject]
  rcases expectAt_spec hplace openBrace with ⟨inner, hopen, hexpect, hinner⟩ | ⟨hopen, hexpect⟩
  · obtain ⟨first, hfirst, hfirstPlace⟩ := skipWsAt_spec hinner
    rw [hopen]
    dsimp only
    rcases expectAt_spec hfirstPlace closeBrace with ⟨after, hclose, hexpect', -⟩ | ⟨hclose, hexpect'⟩
    · rw [hclose]
      simp [tokenizeFlatObjectAt, hstart, hexpect, hfirst, hexpect']
    · rw [hclose]
      simp [tokenizeFlatObjectAt, hstart, hexpect, hfirst, hexpect',
        tokenizeMembersAt_spec hfirstPlace]
  · rw [hopen]
    simp [tokenizeFlatObjectAt, hstart, hexpect]

/-- The texts of nested objects that `flatten_json_object_impl` is called with for a text. -/
def RecursesInto (nested text : Bytes) : Prop :=
  ∃ pairs, tokenizeFlatObjectAt text = .ok (some pairs) ∧ ∃ pair ∈ pairs, pair.2 = nested ∧
    nested.head? = some openBrace

/-- What is flattened next is shorter. -/
theorem RecursesInto.length_lt {nested text : Bytes} (h : RecursesInto nested text) :
    nested.length < text.length := by
  obtain ⟨pairs, hpairs, pair, hpair, rfl, -⟩ := h
  rw [tokenizeFlatObjectAt_eq] at hpairs
  cases hpairs' : tokenizeFlatObject text with
  | none =>
      rw [hpairs'] at hpairs
      cases hpairs
  | some members =>
      rw [hpairs'] at hpairs
      cases hpairs
      exact tokenizeFlatObject_length hpairs' pair hpair

/-- **Bounds and termination of the tokenizer**, for every text and every index: strings and
values end behind their start and inside the text; no scanner makes a fault; each turn of the loop
moves on; and a nested object is shorter than the text around it, so that the recursion ends. -/
theorem tokenizer_in_bounds (text : Bytes) :
    (∀ i, (∃ r, skipJsonStringAt text i = .ok r ∧ ∀ j ∈ r, i < j ∧ j ≤ text.length) ∧
        ∃ r, skipJsonValueAt text i = .ok r ∧ ∀ j ∈ r, i < j ∧ j ≤ text.length) ∧
      (∃ out, jsonUnescapeAt text = .ok out) ∧
      (∃ pairs, tokenizeFlatObjectAt text = .ok pairs) ∧
      (∀ i pair next, readMemberAt text i = .ok (some (pair, next)) →
        i < next ∧ next ≤ text.length) ∧
      (∀ nested, RecursesInto nested text → nested.length < text.length) ∧
      WellFounded RecursesInto := by
  refine ⟨fun i => ⟨skipJsonStringAt_bounds text i, skipJsonValueAt_bounds text i⟩,
    ⟨_, jsonUnescapeAt_eq text⟩, ⟨_, tokenizeFlatObjectAt_eq text⟩,
    fun _ _ _ => readMemberAt_bounds, fun _ => RecursesInto.length_lt, ?_⟩
  exact Subrelation.wf RecursesInto.length_lt (measure List.length).wf

end Nshmqtt
