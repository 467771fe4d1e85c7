import Nshmqtt.SortedMaps
import Nshmqtt.TextUtil

/-!
# The JSON reader

`json_util.cpp`: the tokenizer of one flat object, the unescaping of keys and
the three readers built on them.  A position in the text is the suffix that
starts there, `npos` is `none`, and `consumed s rest` is the stretch between
two positions.
-/

namespace Nshmqtt

open ByteStrings DecimalText

def skipWs (s : Bytes) : Bytes := s.dropWhile isspace

/-- The text after the byte `c`, when the text starts with it. -/
def expect (c : UInt8) : Bytes → Option Bytes
  | [] => none
  | first :: rest => if first = c then some rest else none

/-- The loop of `skipJsonString`, started after the opening quote. -/
def skipToQuote : Bytes → Option Bytes
  | [] => none
  | c :: rest =>
      if c = backslash then
        match rest with
        | [] => none
        | _ :: rest' => skipToQuote rest'
      else if c = quote then some rest
      else skipToQuote rest

theorem skipToQuote_quote (rest : Bytes) : skipToQuote (quote :: rest) = some rest := by
  cases rest <;> rfl

theorem skipToQuote_escape (e : UInt8) (rest : Bytes) :
    skipToQuote (backslash :: e :: rest) = skipToQuote rest :=
  rfl

theorem skipToQuote_plain {c : UInt8} (rest : Bytes) (hback : c ≠ backslash)
    (hquote : c ≠ quote) : skipToQuote (c :: rest) = skipToQuote rest := by
  cases rest <;> simp [skipToQuote, hback, hquote]

/-- The text after the string literal at the start of `s`. -/
def skipJsonString (s : Bytes) : Option Bytes := skipToQuote s.tail

/-- What is behind a string is shorter. -/
theorem skipToQuote_length {s rest : Bytes} (h : skipToQuote s = some rest) :
    rest.length < s.length := by
  fun_induction skipToQuote s with
  | case1 => simp at h
  | case2 => simp at h
  | case3 c hc ih =>
      have := ih h
      simp only [List.length_cons]
      omega
  | case4 =>
      simp only [Option.some.injEq] at h
      subst h
      simp
  | case5 c rest' hc hq ih =>
      have := ih h
      simp only [List.length_cons]
      omega

theorem skipJsonString_length {s rest : Bytes} (h : skipJsonString s = some rest) :
    rest.length < s.length := by
  have := skipToQuote_length h
  simp only [List.length_tail] at this
  omega

/-- The nesting loop of `skipJsonValue`: only the brackets of the outer kind
are counted, and strings are passed over. -/
def skipNested (opening closing : UInt8) : Nat → Bytes → Option Bytes
  | 0, s => some s
  | _ + 1, [] => none
  | depth + 1, c :: rest =>
      if c = quote then
        match h : skipJsonString (c :: rest) with
        | none => none
        | some rest' => skipNested opening closing (depth + 1) rest'
      else if c = opening then skipNested opening closing (depth + 2) rest
      else if c = closing then skipNested opening closing depth rest
      else skipNested opening closing (depth + 1) rest
  termination_by _ s => s.length
  decreasing_by
    · exact skipJsonString_length h
    all_goals simp

/-- The bytes that end a number or a bare word. -/
def endsBareToken (c : UInt8) : Bool :=
  c == comma || c == closeBrace || c == closeBracket || isspace c

/-- The text after the value at the start of `s`. -/
def skipJsonValue : Bytes → Option Bytes
  | [] => none
  | c :: rest =>
      if c = quote then skipJsonString (c :: rest)
      else if c = openBrace then skipNested openBrace closeBrace 1 rest
      else if c = openBracket then skipNested openBracket closeBracket 1 rest
      else
        let after := (c :: rest).dropWhile fun c => !endsBareToken c
        if after.length < (c :: rest).length then some after else none

/-- The part of `s` before its suffix `rest`. -/
def consumed (s rest : Bytes) : Bytes := s.take (s.length - rest.length)

/-- The value of a hexadecimal digit. -/
def hexValue (h : UInt8) : Option Nat :=
  if 48 ≤ h && h ≤ 57 then some (h.toNat - 48)
  else if 97 ≤ h && h ≤ 102 then some (h.toNat - 97 + 10)
  else if 65 ≤ h && h ≤ 70 then some (h.toNat - 65 + 10)
  else none

/-- The code point of four hexadecimal digits. -/
def codePoint (digits : List UInt8) : Option Nat :=
  digits.foldlM (fun cp h => (hexValue h).map (cp <<< 4 ||| ·)) 0

/-- UTF-8 of a code point below `0x10000`. -/
def utf8 (cp : Nat) : Bytes :=
  if cp < 0x80 then [UInt8.ofNat cp]
  else if cp < 0x800 then
    [UInt8.ofNat (0xC0 ||| (cp >>> 6)), UInt8.ofNat (0x80 ||| (cp &&& 0x3F))]
  else
    [UInt8.ofNat (0xE0 ||| (cp >>> 12)), UInt8.ofNat (0x80 ||| ((cp >>> 6) &&& 0x3F)),
      UInt8.ofNat (0x80 ||| (cp &&& 0x3F))]

/-- The byte that a one-letter escape stands for; other bytes stand for
themselves. -/
def unescapeByte (e : UInt8) : UInt8 :=
  if e = 98 then 8
  else if e = 102 then 12
  else if e = 110 then 10
  else if e = 114 then 13
  else if e = 116 then 9
  else e

def jsonUnescape : Bytes → Bytes
  | [] => []
  | c :: rest =>
      if c ≠ backslash then c :: jsonUnescape rest
      else
        match rest with
        | [] => []
        | e :: rest' =>
            if e = 117 then
              -- an incomplete or invalid `\u` leaves a literal "u"
              match rest' with
              | h1 :: h2 :: h3 :: h4 :: rest'' =>
                  match codePoint [h1, h2, h3, h4] with
                  | none => e :: jsonUnescape (h1 :: h2 :: h3 :: h4 :: rest'')
                  | some cp => utf8 cp ++ jsonUnescape rest''
              | short => e :: jsonUnescape short
            else unescapeByte e :: jsonUnescape rest'

/-- One turn of the tokenizer's loop: the pair of the unescaped key and the raw
value, and the text after the value. -/
def readMember (text : Bytes) : Option ((Bytes × Bytes) × Bytes) := do
  let keyText ← expect quote (skipWs text)
  let afterKey ← skipToQuote keyText
  let rawKey := (consumed keyText afterKey).dropLast
  let valueText ← expect colon (skipWs afterKey)
  let value := skipWs valueText
  let afterValue ← skipJsonValue value
  return ((jsonUnescape rawKey, consumed value afterValue), skipWs afterValue)

/-- Whitespace is skipped nowhere before a byte that is not whitespace. -/
theorem skipWs_cons {c : UInt8} (rest : Bytes) (hc : isspace c = false) :
    skipWs (c :: rest) = c :: rest := by
  simp [skipWs, hc]

theorem skipWs_length (s : Bytes) : (skipWs s).length ≤ s.length :=
  (List.dropWhile_suffix _).length_le

/-- The expected byte is the first one. -/
theorem expect_eq_some {c : UInt8} {s rest : Bytes} :
    expect c s = some rest ↔ s = c :: rest := by
  cases s with
  | nil => simp [expect]
  | cons first tail =>
      simp only [expect, List.cons.injEq]
      split_ifs with h
      · simp [h]
      · simp [h]

/-- A nested value ends within the text. -/
theorem skipNested_length {opening closing : UInt8} {depth : Nat} {s rest : Bytes}
    (h : skipNested opening closing depth s = some rest) : rest.length ≤ s.length := by
  fun_induction skipNested opening closing depth s with
  | case1 text =>
      simp only [Option.some.injEq] at h
      rw [h]
  | case2 => simp at h
  | case3 => simp at h
  | case4 depth tail after hstring ih =>
      have := skipJsonString_length hstring
      have := ih h
      omega
  | case5 depth tail hq ih =>
      have := ih h
      simp only [List.length_cons]
      omega
  | case6 depth tail hq ho ih =>
      have := ih h
      simp only [List.length_cons]
      omega
  | case7 depth c tail hq ho hcl ih =>
      have := ih h
      simp only [List.length_cons]
      omega

/-- Every value takes at least one byte. -/
theorem skipJsonValue_length {s rest : Bytes} (h : skipJsonValue s = some rest) :
    rest.length < s.length := by
  cases s with
  | nil => simp [skipJsonValue] at h
  | cons c tail =>
      simp only [skipJsonValue] at h
      split_ifs at h with hq hb hk hlt
      · exact skipJsonString_length h
      · have := skipNested_length h
        simp only [List.length_cons]
        omega
      · have := skipNested_length h
        simp only [List.length_cons]
        omega
      · simp only [Option.some.injEq] at h
        exact h ▸ hlt

theorem consumed_append (s rest : Bytes) : consumed (s ++ rest) rest = s := by
  simp [consumed]

theorem consumed_length (s rest : Bytes) : (consumed s rest).length ≤ s.length :=
  (List.take_sublist _ _).length_le

/-- A member is longer than its value and than what follows it. -/
theorem readMember_length {text after : Bytes} {pair : Bytes × Bytes}
    (h : readMember text = some (pair, after)) :
    pair.2.length < text.length ∧ after.length < text.length := by
  unfold readMember at h
  simp only [Option.bind_eq_bind, Option.bind_eq_some_iff, expect_eq_some, pure,
    Option.some.injEq, Prod.mk.injEq] at h
  obtain ⟨keyText, hkey, afterKey, hafterKey, valueText, hvalue, afterValue, hafter,
    hpair, hrest⟩ := h
  have h1 := skipWs_length text
  have h2 := skipToQuote_length hafterKey
  have h3 := skipWs_length afterKey
  have h4 := skipWs_length valueText
  have h5 := skipJsonValue_length hafter
  have h6 := skipWs_length afterValue
  have h7 := consumed_length (skipWs valueText) afterValue
  rw [hkey, List.length_cons] at h1
  rw [hvalue, List.length_cons] at h3
  subst hpair hrest
  simp only
  omega

/-- The loop of `tokenizeFlatObject`, from a key on. -/
def tokenizeMembers (text : Bytes) : Option (List (Bytes × Bytes)) :=
  match _hread : readMember text with
  | none => none
  | some (pair, after) =>
      match _hcomma : expect comma after with
      | some rest => (tokenizeMembers rest).map (pair :: ·)
      | none =>
          match expect closeBrace after with
          | some _ => some [pair]
          | none => none
  termination_by text.length
  decreasing_by
    have hlt := (readMember_length _hread).2
    rw [expect_eq_some.mp _hcomma, List.length_cons] at hlt
    omega

/-- Behind a comma there are further members. -/
theorem tokenizeMembers_comma {text rest : Bytes} {pair : Bytes × Bytes}
    (hread : readMember text = some (pair, comma :: rest)) :
    tokenizeMembers text = (tokenizeMembers rest).map (pair :: ·) := by
  rw [tokenizeMembers]
  split
  · rename_i hnone
    simp [hread] at hnone
  · rename_i pair' after hread'
    obtain ⟨rfl, rfl⟩ := Prod.mk.inj (Option.some.inj (hread.symm.trans hread'))
    split
    · rename_i rest' hcomma
      rw [(List.cons.inj (expect_eq_some.mp hcomma)).2]
    · rename_i hcomma
      simp [expect] at hcomma

/-- A brace ends them. -/
theorem tokenizeMembers_close {text rest : Bytes} {pair : Bytes × Bytes}
    (hread : readMember text = some (pair, closeBrace :: rest)) :
    tokenizeMembers text = some [pair] := by
  rw [tokenizeMembers]
  split
  · rename_i hnone
    simp [hread] at hnone
  · rename_i pair' after hread'
    obtain ⟨rfl, rfl⟩ := Prod.mk.inj (Option.some.inj (hread.symm.trans hread'))
    split
    · rename_i rest' hcomma
      exact absurd (List.cons.inj (expect_eq_some.mp hcomma)).1 (by decide)
    · simp [expect]

/-- The pairs of the object at the start of the text; what follows the closing
brace is not looked at. -/
def tokenizeFlatObject (text : Bytes) : Option (List (Bytes × Bytes)) :=
  match expect openBrace (skipWs text) with
  | none => none
  | some rest =>
      match expect closeBrace (skipWs rest) with
      | some _ => some []
      | none => tokenizeMembers (skipWs rest)

/-- The values of the members are shorter than their text, on which the recursion rests. -/
theorem tokenizeMembers_length {text : Bytes} {pairs : List (Bytes × Bytes)}
    (h : tokenizeMembers text = some pairs) : ∀ pair ∈ pairs, pair.2.length < text.length := by
  fun_induction tokenizeMembers text generalizing pairs with
  | case1 => simp at h
  | case2 text pair after hread rest hcomma ih =>
      obtain ⟨tail, htail, hpairs⟩ := Option.map_eq_some_iff.mp h
      subst hpairs
      intro other hother
      have hlt := readMember_length hread
      have hafter := expect_eq_some.mp hcomma
      rcases List.mem_cons.mp hother with heq | hmem
      · exact heq ▸ hlt.1
      · have := ih htail other hmem
        rw [hafter, List.length_cons] at hlt
        omega
  | case3 text pair after hread hcomma rest hclose =>
      simp only [Option.some.injEq] at h
      subst h
      intro other hother
      rw [List.mem_singleton.mp hother]
      exact (readMember_length hread).1
  | case4 => simp at h

/-- The raw value of a member is shorter than the object it stands in. -/
theorem tokenizeFlatObject_length {text : Bytes} {pairs : List (Bytes × Bytes)}
    (h : tokenizeFlatObject text = some pairs) : ∀ pair ∈ pairs, pair.2.length < text.length := by
  unfold tokenizeFlatObject at h
  split at h
  · simp at h
  · rename_i rest hopen
    have h1 := skipWs_length text
    have h2 := skipWs_length rest
    rw [expect_eq_some.mp hopen, List.length_cons] at h1
    split at h
    · simp only [Option.some.injEq] at h
      subst h
      simp
    · intro pair hpair
      have := tokenizeMembers_length h pair hpair
      omega

/-- The leaves below a (possibly nested) object, under joined names. -/
def flattenJsonObjectImpl (text parent : Bytes) : Option (List (Bytes × Double)) :=
  match h : tokenizeFlatObject text with
  | none => none
  | some pairs =>
      (pairs.attach.mapM fun (member : { pair // pair ∈ pairs }) =>
        let kv := member.1
        let name := if parent = [] then kv.1 else parent ++ ascii "_" ++ kv.1
        match kv.2.head? with
        | none => none
        | some c =>
            if c = openBrace then
              have : kv.2.length < text.length := tokenizeFlatObject_length h kv member.2
              flattenJsonObjectImpl kv.2 name
            else if c = openBracket ∨ c = quote then some []
            else if kv.2 = ascii "true" then some [(name, Binary64.ofInt 1)]
            else if kv.2 = ascii "false" then some [(name, Binary64.ofInt 0)]
            else if kv.2 = ascii "null" then some []
            else (parseDouble kv.2).map fun v => [(name, v)]).map List.flatten
  termination_by text.length

def extractJsonNumberField (text field : Bytes) : Option Double := do
  let pairs ← tokenizeFlatObject text
  let kv ← pairs.find? fun kv => kv.1 = field
  parseDouble kv.2

/-- A later pair replaces an earlier one of the same name. -/
def parseFlatNumberObject (text : Bytes) : Option (SortedMap Bytes Double) := do
  let pairs ← tokenizeFlatObject text
  pairs.foldlM (fun out kv => (parseDouble kv.2).map (out.insert kv.1)) SortedMap.empty

/-- The loop over the pairs ends when every value is a number. -/
theorem foldlM_parseDouble_isSome (pairs : List (Bytes × Bytes)) (out : SortedMap Bytes Double) :
    (pairs.foldlM (fun out kv => (parseDouble kv.2).map (out.insert kv.1)) out).isSome = true ↔
      ∀ kv ∈ pairs, (parseDouble kv.2).isSome = true := by
  induction pairs generalizing out with
  | nil => simp
  | cons kv pairs ih =>
      rw [List.foldlM_cons, List.forall_mem_cons]
      cases hvalue : parseDouble kv.2 with
      | none => simp
      | some value =>
          simp only [Option.map_some, Option.bind_eq_bind, Option.bind_some, Option.isSome_some,
            true_and]
          exact ih _

def flattenJsonObject (text : Bytes) : Option (List (Bytes × Double)) :=
  flattenJsonObjectImpl text []

/-- What is no object is not flattened. -/
theorem flattenJsonObject_eq_none {text : Bytes} (h : tokenizeFlatObject text = none) :
    flattenJsonObject text = none := by
  rw [flattenJsonObject, flattenJsonObjectImpl]
  split
  · rfl
  · rename_i pairs hsome
    rw [h] at hsome
    cases hsome

end Nshmqtt
