import Nshmqtt.JsonUtil

/-!
# What the tokenizer takes for an object

The language of `tokenizeFlatObject`, byte by byte.  Strings end at the first quote
without a backslash before it, nested values at the bracket that balances the first
one of their own kind, and words at the first structural byte or blank; what lies
inside of them is not looked at, nor is what follows the closing brace.
-/

namespace Nshmqtt

open ByteStrings DecimalText

def IsBlank (s : Bytes) : Prop := ∀ c ∈ s, isspace c = true

theorem isBlank_nil : IsBlank [] := List.forall_mem_nil _

/-- Blanks before something else are skipped. -/
theorem skipWs_blank {blank rest : Bytes} (hblank : IsBlank blank) (hrest : HeadNot isspace rest) :
    skipWs (blank ++ rest) = rest :=
  (span_digits hblank hrest).2

/-- A rest begins with its first byte. -/
theorem headNot_cons {p : UInt8 → Bool} {c : UInt8} {rest : Bytes} (hc : p c = false) :
    HeadNot p (c :: rest) := by
  intro d hd
  rw [← Option.some.inj hd]
  exact hc

/-- What is left begins with no whitespace. -/
theorem headNot_skipWs (s : Bytes) : HeadNot isspace (skipWs s) := by
  intro c hc
  have hnot := List.head?_dropWhile_not isspace s
  rw [skipWs, Option.mem_def] at hc
  rw [hc] at hnot
  exact hnot

/-- What is skipped is blank. -/
theorem exists_skipWs (s : Bytes) : ∃ blank, IsBlank blank ∧ s = blank ++ skipWs s :=
  ⟨s.takeWhile isspace, fun _ hc => List.mem_takeWhile_imp hc, List.takeWhile_append_dropWhile.symm⟩

theorem skipWs_skipWs (s : Bytes) : skipWs (skipWs s) = skipWs s :=
  skipWs_blank isBlank_nil (headNot_skipWs s)

/-- Between the quotes of a string. -/
inductive LooseString : Bytes → Prop
  | nil : LooseString []
  | plain {c : UInt8} {rest : Bytes} (notQuote : c ≠ quote) (notBackslash : c ≠ backslash)
      (tail : LooseString rest) : LooseString (c :: rest)
  | escape {e : UInt8} {rest : Bytes} (tail : LooseString rest) :
      LooseString (backslash :: e :: rest)

/-- A loose string is skipped up to its quote. -/
theorem skipToQuote_loose {body : Bytes} (hbody : LooseString body) (rest : Bytes) :
    skipToQuote (body ++ quote :: rest) = some rest := by
  induction hbody with
  | nil => exact skipToQuote_quote rest
  | plain notQuote notBackslash _ ih =>
      rw [List.cons_append, skipToQuote_plain _ notBackslash notQuote]
      exact ih
  | escape _ ih =>
      rw [List.cons_append, List.cons_append, skipToQuote_escape]
      exact ih

theorem loose_of_skipToQuote {s rest : Bytes} (h : skipToQuote s = some rest) :
    ∃ body, LooseString body ∧ s = body ++ quote :: rest := by
  fun_induction skipToQuote s with
  | case1 => cases h
  | case2 => cases h
  | case3 e tail ih =>
      obtain ⟨body, hbody, rfl⟩ := ih h
      exact ⟨backslash :: e :: body, .escape hbody, rfl⟩
  | case4 tail =>
      cases h
      exact ⟨[], .nil, rfl⟩
  | case5 c tail hback hquote ih =>
      obtain ⟨body, hbody, rfl⟩ := ih h
      exact ⟨c :: body, .plain hquote hback hbody, rfl⟩

/-- Text that closes `depth` open brackets of one kind with its last byte.  Brackets of
the other kind do not count, and strings are passed over. -/
inductive Enclosed (opening closing : UInt8) : Nat → Bytes → Prop
  | done : Enclosed opening closing 0 []
  | string {depth : Nat} {body rest : Bytes} (loose : LooseString body)
      (tail : Enclosed opening closing (depth + 1) rest) :
      Enclosed opening closing (depth + 1) (quote :: (body ++ quote :: rest))
  | opened {depth : Nat} {rest : Bytes} (tail : Enclosed opening closing (depth + 2) rest) :
      Enclosed opening closing (depth + 1) (opening :: rest)
  | closed {depth : Nat} {rest : Bytes} (tail : Enclosed opening closing depth rest) :
      Enclosed opening closing (depth + 1) (closing :: rest)
  | other {depth : Nat} {c : UInt8} {rest : Bytes} (notQuote : c ≠ quote)
      (notOpening : c ≠ opening) (notClosing : c ≠ closing)
      (tail : Enclosed opening closing (depth + 1) rest) :
      Enclosed opening closing (depth + 1) (c :: rest)

/-- The two kinds of brackets. -/
inductive IsBracketPair : UInt8 → UInt8 → Prop
  | braces : IsBracketPair openBrace closeBrace
  | brackets : IsBracketPair openBracket closeBracket

/-- Brackets are no quotes, and each has another one to close it. -/
theorem IsBracketPair.distinct {opening closing : UInt8} (h : IsBracketPair opening closing) :
    opening ≠ quote ∧ closing ≠ quote ∧ closing ≠ opening := by
  cases h <;> decide

/-- An enclosed text is skipped up to the bracket that closes it. -/
theorem skipNested_enclosed {opening closing : UInt8} (hpair : IsBracketPair opening closing)
    {depth : Nat} {text : Bytes} (h : Enclosed opening closing depth text) (rest : Bytes) :
    skipNested opening closing depth (text ++ rest) = some rest := by
  obtain ⟨hopening, hclosing, hdistinct⟩ := hpair.distinct
  induction h with
  | done => rw [List.nil_append, skipNested]
  | string loose _ ih =>
      rename_i depth body tail _
      have hstring : skipJsonString (quote :: (body ++ quote :: tail) ++ rest) =
          some (tail ++ rest) := by
        simpa [skipJsonString] using skipToQuote_loose loose (tail ++ rest)
      rw [List.cons_append] at hstring ⊢
      rw [skipNested, if_pos rfl]
      split
      · rename_i hnone
        rw [hstring] at hnone
        cases hnone
      · rename_i after hafter
        rw [← Option.some.inj (hstring.symm.trans hafter)]
        exact ih
  | opened _ ih =>
      rw [List.cons_append, skipNested, if_neg hopening, if_pos rfl]
      exact ih
  | closed _ ih =>
      rw [List.cons_append, skipNested, if_neg hclosing, if_neg hdistinct, if_pos rfl]
      exact ih
  | other notQuote notOpening notClosing _ ih =>
      rw [List.cons_append, skipNested, if_neg notQuote, if_neg notOpening, if_neg notClosing]
      exact ih

theorem enclosed_of_skipNested {opening closing : UInt8} {depth : Nat} {s rest : Bytes}
    (h : skipNested opening closing depth s = some rest) :
    ∃ text, Enclosed opening closing depth text ∧ s = text ++ rest := by
  fun_induction skipNested opening closing depth s with
  | case1 text =>
      cases h
      exact ⟨[], .done, rfl⟩
  | case2 => cases h
  | case3 => cases h
  | case4 depth tail after hstring ih =>
      obtain ⟨text, htext, rfl⟩ := ih h
      obtain ⟨body, hbody, htail⟩ := loose_of_skipToQuote hstring
      rw [List.tail_cons] at htail
      exact ⟨_, .string hbody htext, by simp [htail]⟩
  | case5 depth tail hquote ih =>
      obtain ⟨text, htext, rfl⟩ := ih h
      exact ⟨_, .opened htext, rfl⟩
  | case6 depth tail hquote hopening ih =>
      obtain ⟨text, htext, rfl⟩ := ih h
      exact ⟨_, .closed htext, rfl⟩
  | case7 depth c tail hquote hopening hclosing ih =>
      obtain ⟨text, htext, rfl⟩ := ih h
      exact ⟨_, .other hquote hopening hclosing htext, rfl⟩

/-- What is cut out as a value. -/
inductive ValueText : Bytes → Prop
  | string {body : Bytes} (loose : LooseString body) : ValueText (quote :: (body ++ [quote]))
  | object {text : Bytes} (enclosed : Enclosed openBrace closeBrace 1 text) :
      ValueText (openBrace :: text)
  | array {text : Bytes} (enclosed : Enclosed openBracket closeBracket 1 text) :
      ValueText (openBracket :: text)
  | word {c : UInt8} {text : Bytes} (notQuote : c ≠ quote) (notBrace : c ≠ openBrace)
      (notBracket : c ≠ openBracket) (bare : ∀ d ∈ c :: text, endsBareToken d = false) :
      ValueText (c :: text)

/-- A value begins with no whitespace. -/
theorem ValueText.cons {value : Bytes} (hvalue : ValueText value) :
    ∃ c rest, value = c :: rest ∧ isspace c = false := by
  cases hvalue with
  | string => exact ⟨_, _, rfl, by decide⟩
  | object => exact ⟨_, _, rfl, by decide⟩
  | array => exact ⟨_, _, rfl, by decide⟩
  | word _ _ _ bare =>
      have hend := bare _ List.mem_cons_self
      simp only [endsBareToken, Bool.or_eq_false_iff] at hend
      exact ⟨_, _, rfl, hend.2⟩

/-- A value is cut at a byte that ends words. -/
theorem skipJsonValue_text {value rest : Bytes} (hvalue : ValueText value)
    (hrest : HeadNot (fun c => !endsBareToken c) rest) :
    skipJsonValue (value ++ rest) = some rest := by
  cases hvalue with
  | @string body loose =>
      have hstring := skipToQuote_loose loose rest
      simpa [skipJsonValue, skipJsonString] using hstring
  | object enclosed =>
      have hskip := skipNested_enclosed .braces enclosed rest
      rw [List.cons_append, skipJsonValue, if_neg (by decide), if_pos rfl]
      exact hskip
  | array enclosed =>
      have hskip := skipNested_enclosed .brackets enclosed rest
      rw [List.cons_append, skipJsonValue, if_neg (by decide), if_neg (by decide), if_pos rfl]
      exact hskip
  | @word c text notQuote notBrace notBracket bare =>
      have hbare : ∀ d ∈ c :: text, (!endsBareToken d) = true := by
        intro d hd
        rw [bare d hd]
        rfl
      have hdrop := (span_digits hbare hrest).2
      rw [List.cons_append] at hdrop ⊢
      simp only [skipJsonValue, notQuote, notBrace, notBracket, if_false, hdrop]
      rw [if_pos]
      simp only [List.length_cons, List.length_append]
      omega

/-- What is skipped as a value is the text of one. -/
theorem text_of_skipJsonValue {s rest : Bytes} (h : skipJsonValue s = some rest) :
    ∃ value, ValueText value ∧ s = value ++ rest := by
  cases s with
  | nil => cases h
  | cons c tail =>
      simp only [skipJsonValue] at h
      split_ifs at h with hquote hbrace hbracket hlength
      · obtain ⟨body, hbody, htail⟩ := loose_of_skipToQuote h
        rw [List.tail_cons] at htail
        exact ⟨_, .string hbody, by simp [hquote, htail]⟩
      · obtain ⟨text, htext, rfl⟩ := enclosed_of_skipNested h
        rw [hbrace]
        exact ⟨_, .object htext, rfl⟩
      · obtain ⟨text, htext, rfl⟩ := enclosed_of_skipNested h
        rw [hbracket]
        exact ⟨_, .array htext, rfl⟩
      · have hsplit := List.takeWhile_append_dropWhile (p := fun c => !endsBareToken c)
          (l := c :: tail)
        have hbare : ∀ d ∈ (c :: tail).takeWhile fun c => !endsBareToken c,
            endsBareToken d = false := by
          intro d hd
          simpa using List.mem_takeWhile_imp hd
        rw [Option.some.inj h] at hsplit hlength
        cases hword : (c :: tail).takeWhile fun c => !endsBareToken c with
        | nil =>
            rw [hword, List.nil_append] at hsplit
            rw [hsplit] at hlength
            exact absurd hlength (Nat.lt_irrefl _)
        | cons d word =>
            rw [hword] at hsplit hbare
            rw [List.cons_append] at hsplit
            obtain ⟨rfl, -⟩ := List.cons.inj hsplit
            exact ⟨_, .word hquote hbrace hbracket hbare, hsplit.symm⟩

/-- A member as it is cut into pieces. -/
structure RawMember where
  before : Bytes
  key : Bytes
  afterKey : Bytes
  beforeValue : Bytes
  value : Bytes
  after : Bytes
  beforeBlank : IsBlank before
  keyLoose : LooseString key
  afterKeyBlank : IsBlank afterKey
  beforeValueBlank : IsBlank beforeValue
  valueText : ValueText value
  afterBlank : IsBlank after

namespace RawMember

def text (m : RawMember) : Bytes :=
  m.before ++ quote :: (m.key ++ quote :: (m.afterKey ++ colon ::
    (m.beforeValue ++ (m.value ++ m.after))))

/-- What the tokenizer keeps of it. -/
def pair (m : RawMember) : Bytes × Bytes := (jsonUnescape m.key, m.value)

end RawMember

/-- The bytes that may follow a member. -/
def endsMember (c : UInt8) : Prop := c = comma ∨ c = closeBrace

/-- What ends a member ends a bare value, and is no whitespace. -/
theorem endsMember.spec {c : UInt8} (hc : endsMember c) :
    isspace c = false ∧ endsBareToken c = true := by
  rcases hc with rfl | rfl <;> decide

theorem endsBareToken_of_isspace {c : UInt8} (hc : isspace c = true) : endsBareToken c = true := by
  rw [endsBareToken, hc, Bool.or_true]

/-- The text of a member is read back. -/
theorem readMember_text (m : RawMember) {stop : UInt8} (hstop : endsMember stop) (rest : Bytes) :
    readMember (m.text ++ stop :: rest) = some (m.pair, stop :: rest) := by
  obtain ⟨hspace, hends⟩ := hstop.spec
  have htext : m.text ++ stop :: rest = m.before ++ quote :: (m.key ++ quote :: (m.afterKey ++
      colon :: (m.beforeValue ++ (m.value ++ (m.after ++ stop :: rest))))) := by
    simp [RawMember.text]
  have hvalueHead : HeadNot isspace (m.value ++ (m.after ++ stop :: rest)) := by
    obtain ⟨c, tail, hcons, hc⟩ := m.valueText.cons
    rw [hcons]
    exact headNot_cons hc
  have hafterHead : HeadNot (fun c => !endsBareToken c) (m.after ++ stop :: rest) := by
    cases hafter : m.after with
    | nil => exact headNot_cons (by rw [hends]; rfl)
    | cons c tail =>
        have hc := m.afterBlank c (by rw [hafter]; exact List.mem_cons_self)
        exact headNot_cons (by rw [endsBareToken_of_isspace hc]; rfl)
  have hkey : (consumed (m.key ++ quote :: (m.afterKey ++ colon :: (m.beforeValue ++
      (m.value ++ (m.after ++ stop :: rest))))) (m.afterKey ++ colon :: (m.beforeValue ++
      (m.value ++ (m.after ++ stop :: rest))))).dropLast = m.key := by
    rw [List.append_cons, consumed_append, List.dropLast_concat]
  rw [htext]
  unfold readMember
  rw [skipWs_blank m.beforeBlank (headNot_cons rfl), expect_eq_some.mpr rfl]
  simp only [Option.bind_eq_bind, Option.bind_some, skipToQuote_loose m.keyLoose]
  rw [skipWs_blank m.afterKeyBlank (headNot_cons rfl), expect_eq_some.mpr rfl]
  simp only [Option.bind_some, skipWs_blank m.beforeValueBlank hvalueHead,
    skipJsonValue_text m.valueText hafterHead, consumed_append, hkey,
    skipWs_blank m.afterBlank (headNot_cons hspace)]
  rfl

theorem text_of_readMember {s rest : Bytes} {pair : Bytes × Bytes}
    (h : readMember s = some (pair, rest)) :
    ∃ m : RawMember, s = m.text ++ rest ∧ m.pair = pair := by
  unfold readMember at h
  simp only [Option.bind_eq_bind, Option.bind_eq_some_iff, expect_eq_some, pure,
    Option.some.injEq, Prod.mk.injEq] at h
  obtain ⟨keyText, hkeyText, afterKey, hafterKey, valueText, hvalueText, afterValue, hafter,
    hpair, hrest⟩ := h
  obtain ⟨before, hbefore, hs⟩ := exists_skipWs s
  obtain ⟨key, hkey, hkeySplit⟩ := loose_of_skipToQuote hafterKey
  obtain ⟨between, hbetween, hafterKeySplit⟩ := exists_skipWs afterKey
  obtain ⟨beforeValue, hbeforeValue, hvalueSplit⟩ := exists_skipWs valueText
  obtain ⟨value, hvalue, hvalueCut⟩ := text_of_skipJsonValue hafter
  obtain ⟨after, hafterBlank, hafterSplit⟩ := exists_skipWs afterValue
  refine ⟨⟨before, key, between, beforeValue, value, after, hbefore, hkey, hbetween,
    hbeforeValue, hvalue, hafterBlank⟩, ?_, ?_⟩
  · simp only [RawMember.text, List.append_assoc, List.cons_append]
    rw [← hrest, ← hafterSplit, ← hvalueCut, ← hvalueSplit, ← hvalueText, ← hafterKeySplit,
      ← hkeySplit, ← hkeyText, ← hs]
  · rw [← hpair, hvalueCut, consumed_append, hkeySplit, List.append_cons, consumed_append,
      List.dropLast_concat]
    rfl

/-- Members with commas between them. -/
def membersText (members : List RawMember) : Bytes := [comma].intercalate (members.map RawMember.text)

/-- A member, a comma and further members. -/
theorem membersText_more (m next : RawMember) (members : List RawMember) (rest : Bytes) :
    membersText (m :: next :: members) ++ rest =
      m.text ++ comma :: (membersText (next :: members) ++ rest) := by
  simp [membersText, List.intercalate]

/-- The text of members is read back, whatever stands behind the brace. -/
theorem tokenizeMembers_text (m : RawMember) (members : List RawMember) (tail : Bytes) :
    tokenizeMembers (membersText (m :: members) ++ closeBrace :: tail) =
      some ((m :: members).map RawMember.pair) := by
  induction members generalizing m with
  | nil =>
      have hone : membersText [m] = m.text := by simp [membersText, List.intercalate]
      rw [hone, tokenizeMembers_close (readMember_text m (.inr rfl) tail)]
      rfl
  | cons next members ih =>
      rw [membersText_more, tokenizeMembers_comma (readMember_text m (.inl rfl) _), ih]
      rfl

theorem text_of_tokenizeMembers {s : Bytes} {pairs : List (Bytes × Bytes)}
    (h : tokenizeMembers s = some pairs) : ∃ m members tail,
      s = membersText (m :: members) ++ closeBrace :: tail ∧
        (m :: members).map RawMember.pair = pairs := by
  fun_induction tokenizeMembers s generalizing pairs with
  | case1 => cases h
  | case2 text pair after hread rest hcomma ih =>
      obtain ⟨others, hothers, rfl⟩ := Option.map_eq_some_iff.mp h
      obtain ⟨next, members, tail, rfl, rfl⟩ := ih hothers
      obtain ⟨m, rfl, rfl⟩ := text_of_readMember hread
      refine ⟨m, next :: members, tail, ?_, rfl⟩
      rw [membersText_more, expect_eq_some.mp hcomma]
  | case3 text pair after hread hcomma rest hclose =>
      cases h
      obtain ⟨m, rfl, rfl⟩ := text_of_readMember hread
      refine ⟨m, [], rest, ?_, rfl⟩
      rw [expect_eq_some.mp hclose]
      simp [membersText, List.intercalate]
  | case4 => cases h

/-- Whitespace in front of a member does not matter. -/
theorem readMember_skipWs (s : Bytes) : readMember (skipWs s) = readMember s := by
  unfold readMember
  rw [skipWs_skipWs]

theorem tokenizeMembers_skipWs (s : Bytes) : tokenizeMembers (skipWs s) = tokenizeMembers s := by
  rw [tokenizeMembers, tokenizeMembers, readMember_skipWs]

/-- **The objects of the tokenizer**, with their members.  Anything may follow the
closing brace. -/
inductive FlatObject : Bytes → List RawMember → Prop
  | empty {before inside : Bytes} (beforeBlank : IsBlank before) (insideBlank : IsBlank inside)
      (tail : Bytes) : FlatObject (before ++ openBrace :: (inside ++ closeBrace :: tail)) []
  | members {before : Bytes} (beforeBlank : IsBlank before) (m : RawMember)
      (members : List RawMember) (tail : Bytes) :
      FlatObject (before ++ openBrace :: (membersText (m :: members) ++ closeBrace :: tail))
        (m :: members)

/-- Members begin with a quote. -/
theorem skipWs_membersText (m : RawMember) (members : List RawMember) (rest : Bytes) :
    ∃ tail, skipWs (membersText (m :: members) ++ rest) = quote :: tail := by
  have hstart : ∃ tail, membersText (m :: members) ++ rest = m.before ++ quote :: tail := by
    cases members <;> exact ⟨_, by simp [membersText, List.intercalate, RawMember.text]; rfl⟩
  obtain ⟨tail, htail⟩ := hstart
  exact ⟨tail, by rw [htail, skipWs_blank m.beforeBlank (headNot_cons rfl)]⟩

/-- **The text of an object** is read back to its members. -/
theorem tokenizeFlatObject_text {text : Bytes} {members : List RawMember}
    (h : FlatObject text members) :
    tokenizeFlatObject text = some (members.map RawMember.pair) := by
  cases h with
  | empty beforeBlank insideBlank tail =>
      unfold tokenizeFlatObject
      rw [skipWs_blank beforeBlank (headNot_cons rfl), expect_eq_some.mpr rfl]
      simp only [skipWs_blank insideBlank (headNot_cons (rfl : isspace closeBrace = false)),
        expect_eq_some.mpr rfl, List.map_nil]
  | members beforeBlank m members tail =>
      obtain ⟨rest, hrest⟩ := skipWs_membersText m members (closeBrace :: tail)
      have hclose : expect closeBrace (quote :: rest) = none := rfl
      unfold tokenizeFlatObject
      rw [skipWs_blank beforeBlank (headNot_cons rfl), expect_eq_some.mpr rfl]
      simp only [hrest, hclose]
      rw [← hrest, tokenizeMembers_skipWs, tokenizeMembers_text]

/-- **What is read as an object** is the text of one. -/
theorem text_of_tokenizeFlatObject {text : Bytes} {pairs : List (Bytes × Bytes)}
    (h : tokenizeFlatObject text = some pairs) :
    ∃ members, FlatObject text members ∧ members.map RawMember.pair = pairs := by
  obtain ⟨before, hbefore, htext⟩ := exists_skipWs text
  unfold tokenizeFlatObject at h
  split at h
  · cases h
  · rename_i rest hopen
    rw [expect_eq_some.mp hopen] at htext
    split at h
    · rename_i tail hclose
      cases h
      obtain ⟨inside, hinside, hrest⟩ := exists_skipWs rest
      rw [expect_eq_some.mp hclose] at hrest
      rw [htext, hrest]
      exact ⟨[], .empty hbefore hinside tail, rfl⟩
    · rw [tokenizeMembers_skipWs] at h
      obtain ⟨m, members, tail, hrest, hpairs⟩ := text_of_tokenizeMembers h
      rw [htext, hrest]
      exact ⟨m :: members, .members hbefore m members tail, hpairs⟩

/-- The members with commas between them, in braces. -/
def objectText (members : List (Bytes × Bytes)) : Bytes :=
  [openBrace] ++ [comma].intercalate
    (members.map fun m => quote :: (m.1 ++ quote :: colon :: m.2)) ++ [closeBrace]

/-- A member of it in the pieces of the tokenizer. -/
def bareMember (name value : Bytes) (hname : LooseString name) (hvalue : ValueText value) :
    RawMember where
  before := []
  key := name
  afterKey := []
  beforeValue := []
  value := value
  after := []
  beforeBlank := isBlank_nil
  keyLoose := hname
  afterKeyBlank := isBlank_nil
  beforeValueBlank := isBlank_nil
  valueText := hvalue
  afterBlank := isBlank_nil

/-- Loose strings and values make members without whitespace. -/
theorem exists_bareMembers {members : List (Bytes × Bytes)}
    (h : ∀ m ∈ members, LooseString m.1 ∧ ValueText m.2) : ∃ raw : List RawMember,
      raw.map RawMember.text = members.map (fun m => quote :: (m.1 ++ quote :: colon :: m.2)) ∧
        raw.map RawMember.pair = members.map fun m => (jsonUnescape m.1, m.2) := by
  induction members with
  | nil => exact ⟨[], rfl, rfl⟩
  | cons m members ih =>
      obtain ⟨raw, htext, hpair⟩ := ih fun m' hm' => h m' (List.mem_cons_of_mem _ hm')
      obtain ⟨hname, hvalue⟩ := h m List.mem_cons_self
      refine ⟨bareMember m.1 m.2 hname hvalue :: raw, ?_, ?_⟩
      · rw [List.map_cons, List.map_cons, htext]
        simp [RawMember.text, bareMember]
      · rw [List.map_cons, List.map_cons, hpair]
        rfl

/-- The tokenizer cuts such an object at the same places, also where a value is no JSON. -/
theorem tokenizeFlatObject_objectText {members : List (Bytes × Bytes)}
    (h : ∀ m ∈ members, LooseString m.1 ∧ ValueText m.2) :
    tokenizeFlatObject (objectText members) =
      some (members.map fun m => (jsonUnescape m.1, m.2)) := by
  obtain ⟨raw, htext, hpair⟩ := exists_bareMembers h
  rw [← hpair]
  apply tokenizeFlatObject_text
  cases raw with
  | nil =>
      have hnil : members = [] := List.map_eq_nil_iff.mp htext.symm
      rw [hnil]
      exact .empty isBlank_nil isBlank_nil []
  | cons m raw =>
      have hflat := FlatObject.members isBlank_nil m raw []
      rw [membersText, htext] at hflat
      exact hflat

end Nshmqtt
