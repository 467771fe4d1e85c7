import Nshmqtt.State

/-!
# Which texts are flat objects of numbers

`parseFlatNumberObject` is what `load` trusts to notice a damaged state file.  The
tokenizer below it stops at the first closing brace of the object, so the text
behind that brace is never looked at: a complete object followed by anything is
accepted.  Everything else is exactly as promised.
-/

namespace Nshmqtt

open ByteStrings DecimalText

/-- `FlatObject` with the text behind the closing brace. -/
inductive FlatObjectTail : Bytes → List RawMember → Bytes → Prop
  | empty {before inside : Bytes} (beforeBlank : IsBlank before) (insideBlank : IsBlank inside)
      (tail : Bytes) :
      FlatObjectTail (before ++ openBrace :: (inside ++ closeBrace :: tail)) [] tail
  | members {before : Bytes} (beforeBlank : IsBlank before) (m : RawMember)
      (members : List RawMember) (tail : Bytes) :
      FlatObjectTail (before ++ openBrace :: (membersText (m :: members) ++ closeBrace :: tail))
        (m :: members) tail

/-- An object ends before some tail. -/
theorem flatObject_iff_tail {text : Bytes} {members : List RawMember} :
    FlatObject text members ↔ ∃ tail, FlatObjectTail text members tail := by
  constructor
  · intro h
    cases h with
    | empty beforeBlank insideBlank tail => exact ⟨tail, .empty beforeBlank insideBlank tail⟩
    | members beforeBlank m members tail => exact ⟨tail, .members beforeBlank m members tail⟩
  · intro h
    obtain ⟨tail, h⟩ := h
    cases h with
    | empty beforeBlank insideBlank => exact .empty beforeBlank insideBlank tail
    | members beforeBlank m members => exact .members beforeBlank m members tail

theorem membersText_one (m : RawMember) (rest : Bytes) :
    membersText [m] ++ rest = m.text ++ rest := by
  simp [membersText, List.intercalate]

/-- A member ends at one place only. -/
theorem member_end_unique {m m' : RawMember} {stop stop' : UInt8} {rest rest' : Bytes}
    (hstop : endsMember stop) (hstop' : endsMember stop')
    (h : m.text ++ stop :: rest = m'.text ++ stop' :: rest') : stop = stop' ∧ rest = rest' := by
  have hread := readMember_text m hstop rest
  rw [h, readMember_text m' hstop' rest'] at hread
  simp only [Option.some.injEq, Prod.mk.injEq, List.cons.injEq] at hread
  exact ⟨hread.2.1.symm, hread.2.2.symm⟩

/-- The end of the object can be told from the text. -/
theorem membersText_tail_unique {m m' : RawMember} {members members' : List RawMember}
    {tail tail' : Bytes} (h : membersText (m :: members) ++ closeBrace :: tail =
      membersText (m' :: members') ++ closeBrace :: tail') : tail = tail' := by
  induction members generalizing m m' members' with
  | nil =>
      rw [membersText_one] at h
      cases members' with
      | nil =>
          rw [membersText_one] at h
          exact (member_end_unique (.inr rfl) (.inr rfl) h).2
      | cons next' members' =>
          rw [membersText_more] at h
          exact absurd (member_end_unique (.inr rfl) (.inl rfl) h).1 (by decide)
  | cons next members ih =>
      rw [membersText_more] at h
      cases members' with
      | nil =>
          rw [membersText_one] at h
          exact absurd (member_end_unique (.inl rfl) (.inr rfl) h).1 (by decide)
      | cons next' members' =>
          rw [membersText_more] at h
          exact ih (member_end_unique (.inl rfl) (.inl rfl) h).2

/-- Behind blanks the first byte is found at one place. -/
theorem blank_unique {before before' rest rest' : Bytes} (hbefore : IsBlank before)
    (hbefore' : IsBlank before') (hrest : HeadNot isspace rest) (hrest' : HeadNot isspace rest')
    (h : before ++ rest = before' ++ rest') : rest = rest' := by
  rw [← skipWs_blank hbefore hrest, h, skipWs_blank hbefore' hrest']

/-- **One object, one tail.** -/
theorem FlatObjectTail.unique {text : Bytes} {members members' : List RawMember}
    {tail tail' : Bytes} (h : FlatObjectTail text members tail)
    (h' : FlatObjectTail text members' tail') : tail = tail' := by
  have hlength : members = [] ↔ members' = [] := by
    have hpairs := tokenizeFlatObject_text (flatObject_iff_tail.mpr ⟨tail, h⟩)
    rw [tokenizeFlatObject_text (flatObject_iff_tail.mpr ⟨tail', h'⟩)] at hpairs
    have hcount := congrArg List.length (Option.some.inj hpairs)
    rw [List.length_map, List.length_map] at hcount
    rw [← List.length_eq_zero_iff, ← List.length_eq_zero_iff, hcount]
  generalize htext : text = text' at h'
  cases h with
  | @empty before inside beforeBlank insideBlank =>
      cases h' with
      | @empty before' inside' beforeBlank' insideBlank' =>
          have hopen := blank_unique beforeBlank beforeBlank' (headNot_cons rfl)
            (headNot_cons rfl) htext
          have hclose := blank_unique insideBlank insideBlank' (headNot_cons rfl)
            (headNot_cons rfl) (List.cons.inj hopen).2
          exact (List.cons.inj hclose).2
      | members => exact absurd (hlength.mp rfl) (by simp)
  | @members before beforeBlank m members =>
      cases h' with
      | empty => exact absurd (hlength.mpr rfl) (by simp)
      | @members before' beforeBlank' m' members' =>
          have hopen := blank_unique beforeBlank beforeBlank' (headNot_cons rfl)
            (headNot_cons rfl) htext
          exact membersText_tail_unique (List.cons.inj hopen).2

/-- The value of the member is accepted as a number. -/
def RawMember.IsNumber (m : RawMember) : Prop := (parseDouble m.value).isSome = true

/-- One object of numbers with only blanks around it. -/
def NumberObject (text : Bytes) (members : List RawMember) : Prop :=
  ∃ tail, FlatObjectTail text members tail ∧ IsBlank tail ∧ ∀ m ∈ members, m.IsNumber

/-- The value of the last member with the key. -/
def lastValue (members : List RawMember) (key : Bytes) : Option Double :=
  (members.reverse.find? fun m => jsonUnescape m.key = key).bind fun m => parseDouble m.value

/-- The loop over the pairs, from a map that is filled already. -/
theorem foldlM_isSome_iff (members : List RawMember) (out : SortedMap Bytes Double) :
    ((members.map RawMember.pair).foldlM (fun out kv => (parseDouble kv.2).map (out.insert kv.1))
        out).isSome = true ↔ ∀ m ∈ members, m.IsNumber := by
  rw [foldlM_parseDouble_isSome, List.forall_mem_map]
  rfl

/-- The last member of a name decides, and before it the old value. -/
theorem lookup_foldlM {members : List RawMember} {out result : SortedMap Bytes Double}
    (h : (members.map RawMember.pair).foldlM
      (fun out kv => (parseDouble kv.2).map (out.insert kv.1)) out = some result) (key : Bytes) :
    result.lookup key = (lastValue members key).or (out.lookup key) := by
  induction members generalizing out with
  | nil =>
      cases h
      rfl
  | cons m members ih =>
      rw [List.map_cons, List.foldlM_cons, Option.bind_eq_bind, Option.bind_eq_some_iff] at h
      obtain ⟨next, hnext, hrest⟩ := h
      obtain ⟨value, hvalue, rfl⟩ := Option.map_eq_some_iff.mp hnext
      rw [ih hrest, SortedMap.lookup_insert]
      unfold lastValue
      rw [List.reverse_cons, List.find?_append]
      cases hlater : members.reverse.find? fun m => jsonUnescape m.key = key with
      | some later =>
          have hfound := (foldlM_isSome_iff members _).mp (by rw [hrest]; rfl) later
            (List.mem_reverse.mp (List.mem_of_find?_eq_some hlater))
          obtain ⟨found, hfound⟩ := Option.isSome_iff_exists.mp hfound
          simp [hfound]
      | none =>
          by_cases hkey : jsonUnescape m.key = key
          · simp only [RawMember.pair] at hvalue
            simp [RawMember.pair, hkey, hvalue]
          · simp [RawMember.pair, hkey, Ne.symm hkey]

/-- The parser accepts the flat objects of numbers, whatever follows them. -/
theorem parseFlatNumberObject_isSome_iff (text : Bytes) :
    (parseFlatNumberObject text).isSome = true ↔
      ∃ members tail, FlatObjectTail text members tail ∧ ∀ m ∈ members, m.IsNumber := by
  unfold parseFlatNumberObject
  constructor
  · intro h
    cases htokens : tokenizeFlatObject text with
    | none =>
        rw [htokens] at h
        cases h
    | some pairs =>
        obtain ⟨members, hflat, rfl⟩ := text_of_tokenizeFlatObject htokens
        obtain ⟨tail, htail⟩ := flatObject_iff_tail.mp hflat
        rw [htokens] at h
        exact ⟨members, tail, htail, (foldlM_isSome_iff members _).mp h⟩
  · intro h
    obtain ⟨members, tail, htail, hnumbers⟩ := h
    rw [tokenizeFlatObject_text (flatObject_iff_tail.mpr ⟨tail, htail⟩)]
    exact (foldlM_isSome_iff members _).mpr hnumbers

/-- A later member replaces an earlier one, and there are no other keys. -/
theorem lookup_parseFlatNumberObject {text : Bytes} {members : List RawMember} {tail : Bytes}
    (htail : FlatObjectTail text members tail) {out : SortedMap Bytes Double}
    (h : parseFlatNumberObject text = some out) (key : Bytes) :
    out.lookup key = lastValue members key := by
  unfold parseFlatNumberObject at h
  rw [tokenizeFlatObject_text (flatObject_iff_tail.mpr ⟨tail, htail⟩), Option.bind_eq_bind,
    Option.bind_some] at h
  rw [lookup_foldlM h, SortedMap.lookup_empty, Option.or_none]

/-- What is promised for a text: it is accepted exactly when it is one object of numbers
and nothing else, and then every key has the value of its last member. -/
def ParsesExactly (text : Bytes) : Prop :=
  ((parseFlatNumberObject text).isSome = true ↔ ∃ members, NumberObject text members) ∧
    ∀ out, parseFlatNumberObject text = some out → ∀ members, NumberObject text members →
      ∀ key, out.lookup key = lastValue members key

/-- **Which texts keep the promise**: those without an object of numbers at the start,
and those where only blanks follow it. -/
theorem parsesExactly_iff (text : Bytes) :
    ParsesExactly text ↔
      ∀ members tail, FlatObjectTail text members tail → (∀ m ∈ members, m.IsNumber) →
        IsBlank tail := by
  constructor
  · intro hexact members tail htail hnumbers
    obtain ⟨others, tail', htail', hblank, -⟩ := hexact.1.mp
      ((parseFlatNumberObject_isSome_iff text).mpr ⟨members, tail, htail, hnumbers⟩)
    rw [htail.unique htail']
    exact hblank
  · intro hblank
    refine ⟨?_, fun out hout members hmembers key => ?_⟩
    · rw [parseFlatNumberObject_isSome_iff]
      constructor
      · intro h
        obtain ⟨members, tail, htail, hnumbers⟩ := h
        exact ⟨members, tail, htail, hblank members tail htail hnumbers, hnumbers⟩
      · intro h
        obtain ⟨members, tail, htail, -, hnumbers⟩ := h
        exact ⟨members, tail, htail, hnumbers⟩
    · obtain ⟨tail, htail, -, -⟩ := hmembers
      exact lookup_parseFlatNumberObject htail hout key

/-- A complete object with a byte behind it: accepted, and not as promised. -/
theorem parsesExactly_trailing :
    let text := ascii "\x7b\"a\":1\x7dx"
    (parseFlatNumberObject text).isSome = true ∧ ¬ ParsesExactly text := by
  intro text
  have hkey : LooseString (ascii "a") := .plain (by decide) (by decide) .nil
  have hvalue : ValueText (ascii "1") :=
    .word (by decide) (by decide) (by decide) (List.forall_mem_singleton.mpr (by decide))
  have htail : FlatObjectTail text [bareMember (ascii "a") (ascii "1") hkey hvalue] (ascii "x") :=
    .members isBlank_nil (bareMember (ascii "a") (ascii "1") hkey hvalue) [] (ascii "x")
  have hnumber : (parseDouble (ascii "1")).isSome = true := by decide +kernel
  have haccepted : (parseFlatNumberObject text).isSome = true := by
    rw [parseFlatNumberObject_isSome_iff]
    exact ⟨_, _, htail, by simpa [RawMember.IsNumber, bareMember] using hnumber⟩
  refine ⟨haccepted, fun hexact => ?_⟩
  obtain ⟨members, tail', htail', hblank, -⟩ := hexact.1.mp haccepted
  rw [← htail.unique htail'] at hblank
  exact absurd (hblank 120 (by decide)) (by decide)

end Nshmqtt
