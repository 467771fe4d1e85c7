import Nshmqtt.JsonFlatten
import Nshmqtt.JsonGrammar

/-!
# Well-formed objects and their leaves

The tokenizer looks for the end of a value by its first byte and by brackets of one
kind.  On well-formed text that is the end in the grammar: no value disturbs a count of
brackets, and no structural byte or blank stands in a number or a literal.  So the
members that are cut out are the members of the syntax tree, at every level, and the
leaves are those of a recursion over the tree.
-/

namespace Nshmqtt

open ByteStrings DecimalText JsonGrammar

/-- A byte that stands for itself wherever the tokenizer meets it outside of a string. -/
def isBareByte (c : UInt8) : Bool :=
  !endsBareToken c && c != quote && c != openBrace && c != openBracket

/-- A byte of a bare value ends nothing and opens nothing. -/
theorem isBareByte_spec {c : UInt8} (hc : isBareByte c = true) :
    endsBareToken c = false ∧ c ≠ quote ∧ c ≠ openBrace ∧ c ≠ openBracket := by
  simpa [isBareByte, and_assoc] using hc

theorem isspace_of_isBlank (c : UInt8) : isBlank c = true → isspace c = true :=
  forall_byte (p := fun c => isBlank c = true → isspace c = true) (by decide +kernel) c

theorem isBareByte_of_isdigit (c : UInt8) : isdigit c = true → isBareByte c = true :=
  forall_byte (p := fun c => isdigit c = true → isBareByte c = true) (by decide +kernel) c

theorem isBlank_space (space : Space) : IsBlank space.text :=
  fun c hc => isspace_of_isBlank c (space.blank c hc)

/-- A string body is one for the source, too. -/
theorem loose_of_stringBody {body : Bytes} (hbody : StringBody body) : LooseString body := by
  have hplain : ∀ c, isxdigit c = true → c ≠ quote ∧ c ≠ backslash :=
    forall_byte (by decide +kernel)
  induction hbody with
  | nil => exact .nil
  | plain _ notQuote notBackslash _ ih => exact .plain notQuote notBackslash ih
  | escape _ _ ih => exact .escape ih
  | unicode first second third fourth _ ih =>
      refine .escape (.plain (hplain _ first).1 (hplain _ first).2 ?_)
      refine .plain (hplain _ second).1 (hplain _ second).2 ?_
      refine .plain (hplain _ third).1 (hplain _ third).2 ?_
      exact .plain (hplain _ fourth).1 (hplain _ fourth).2 ih

/-- A number has no structural byte. -/
theorem isBareByte_number (n : NumberText) : ∀ c ∈ n.text, isBareByte c = true := by
  have hother : [point, plus, minus, 101, 69].all isBareByte = true := rfl
  intro c hc
  rcases NumberText.mem_text hc with hdigit | hc
  · exact isBareByte_of_isdigit c hdigit
  · exact List.all_eq_true.mp hother c hc

theorem isBareByte_literal (b : Bool) : ∀ c ∈ literal b, isBareByte c = true := by
  cases b <;> exact List.all_eq_true.mp rfl

theorem isBareByte_null : ∀ c ∈ ascii "null", isBareByte c = true := List.all_eq_true.mp rfl

/-- A number starts with a minus or a digit. -/
theorem number_cons (n : NumberText) :
    ∃ c rest, n.text = c :: rest ∧ (c = minus ∨ isdigit c = true) := by
  obtain ⟨d, whole, hwhole⟩ := List.exists_cons_of_ne_nil n.wholeNonempty
  have hd := n.wholeDigits d (by rw [hwhole]; exact List.mem_cons_self)
  unfold NumberText.text
  rw [hwhole]
  cases n.negative with
  | true => exact ⟨minus, _, rfl, .inl rfl⟩
  | false => exact ⟨d, _, rfl, .inr hd⟩

/-- Text that leaves every count of brackets as it was. -/
def Transparent (opening closing : UInt8) (text : Bytes) : Prop :=
  ∀ depth rest, Enclosed opening closing (depth + 1) rest →
    Enclosed opening closing (depth + 1) (text ++ rest)

section Transparency

variable {opening closing : UInt8}

/-- Two transparent texts are one. -/
theorem Transparent.append {first second : Bytes} (hfirst : Transparent opening closing first)
    (hsecond : Transparent opening closing second) :
    Transparent opening closing (first ++ second) := by
  intro depth rest hrest
  rw [List.append_assoc]
  exact hfirst depth _ (hsecond depth rest hrest)

theorem Transparent.nil : Transparent opening closing [] :=
  fun _ _ hrest => hrest

/-- A transparent byte in front of a transparent text. -/
theorem Transparent.cons {c : UInt8} {text : Bytes} (hc : Transparent opening closing [c])
    (htext : Transparent opening closing text) : Transparent opening closing (c :: text) :=
  hc.append htext

/-- Brackets within a string do not count. -/
theorem transparent_string {body : Bytes} (hbody : LooseString body) :
    Transparent opening closing (quote :: (body ++ [quote])) := by
  intro depth rest hrest
  rw [List.cons_append, List.append_assoc]
  exact .string hbody hrest

variable (hpair : IsBracketPair opening closing)

include hpair

/-- Neither a quote nor a bracket. -/
theorem transparent_byte {c : UInt8} (hc : c ≠ quote ∧ c ≠ openBrace ∧ c ≠ closeBrace ∧
    c ≠ openBracket ∧ c ≠ closeBracket) : Transparent opening closing [c] := by
  obtain ⟨hquote, hopenBrace, hcloseBrace, hopenBracket, hcloseBracket⟩ := hc
  intro depth rest hrest
  cases hpair with
  | braces => exact .other hquote hopenBrace hcloseBrace hrest
  | brackets => exact .other hquote hopenBracket hcloseBracket hrest

/-- A text without quotes and brackets is transparent. -/
theorem transparent_bytes {text : Bytes} (htext : ∀ c ∈ text, c ≠ quote ∧ c ≠ openBrace ∧
    c ≠ closeBrace ∧ c ≠ openBracket ∧ c ≠ closeBracket) : Transparent opening closing text := by
  induction text with
  | nil => exact .nil
  | cons c text ih =>
      exact .cons (transparent_byte hpair (htext c List.mem_cons_self))
        (ih fun d hd => htext d (List.mem_cons_of_mem _ hd))

theorem transparent_bare {text : Bytes} (htext : ∀ c ∈ text, isBareByte c = true) :
    Transparent opening closing text := by
  apply transparent_bytes hpair
  intro c hc
  obtain ⟨hends, hquote, hbrace, hbracket⟩ := isBareByte_spec (htext c hc)
  refine ⟨hquote, hbrace, ?_, hbracket, ?_⟩
  all_goals
    intro heq
    rw [heq] at hends
    revert hends
    decide

theorem transparent_space (space : Space) : Transparent opening closing space.text := by
  have hblank : ∀ c, isBlank c = true → c ≠ quote ∧ c ≠ openBrace ∧ c ≠ closeBrace ∧
      c ≠ openBracket ∧ c ≠ closeBracket := forall_byte (by decide +kernel)
  exact transparent_bytes hpair fun c hc => hblank c (space.blank c hc)

theorem transparent_literal (b : Bool) : Transparent opening closing (literal b) :=
  transparent_bare hpair (isBareByte_literal b)

/-- A nested value closes what it opens. -/
theorem transparent_braces {text : Bytes} (htext : Transparent opening closing text) :
    Transparent opening closing (openBrace :: (text ++ [closeBrace])) := by
  intro depth rest hrest
  rw [List.cons_append, List.append_assoc]
  cases hpair with
  | braces => exact .opened (htext _ _ (.closed hrest))
  | brackets =>
      have hclose : Enclosed openBracket closeBracket (depth + 1) (closeBrace :: rest) :=
        .other (by decide) (by decide) (by decide) hrest
      exact .other (by decide) (by decide) (by decide) (htext _ _ hclose)

/-- A pair of brackets is counted up and down again. -/
theorem transparent_brackets {text : Bytes} (htext : Transparent opening closing text) :
    Transparent opening closing (openBracket :: (text ++ [closeBracket])) := by
  intro depth rest hrest
  rw [List.cons_append, List.append_assoc]
  cases hpair with
  | brackets => exact .opened (htext _ _ (.closed hrest))
  | braces =>
      have hclose : Enclosed openBrace closeBrace (depth + 1) (closeBracket :: rest) :=
        .other (by decide) (by decide) (by decide) hrest
      exact .other (by decide) (by decide) (by decide) (htext _ _ hclose)

theorem transparent_key (key : Key) : Transparent opening closing key.text := by
  have hcolon : Transparent opening closing [colon] := transparent_byte hpair (by decide)
  have hname : Transparent opening closing key.name.text :=
    transparent_string (loose_of_stringBody key.name.ok)
  exact (((transparent_space hpair key.before).append hname).append
    (transparent_space hpair key.after)).append hcolon

mutual

/-- **A value disturbs no count.** -/
theorem transparent_value : ∀ value : Value, Transparent opening closing value.render
  | .string s => transparent_string (loose_of_stringBody s.ok)
  | .number n => transparent_bare hpair (isBareByte_number n)
  | .boolean b => transparent_literal hpair b
  | .null => transparent_bare hpair isBareByte_null
  | .emptyArray space => transparent_brackets hpair (transparent_space hpair space)
  | .array items => transparent_brackets hpair (transparent_items items)
  | .emptyObject space => transparent_braces hpair (transparent_space hpair space)
  | .object members => transparent_braces hpair (transparent_members members)

/-- The items of an array, by induction along with the values. -/
theorem transparent_items : ∀ items : Items, Transparent opening closing items.render
  | .last before value after =>
      ((transparent_space hpair before).append (transparent_value value)).append
        (transparent_space hpair after)
  | .more before value after rest =>
      (((transparent_space hpair before).append (transparent_value value)).append
        (transparent_space hpair after)).append
          (.cons (transparent_byte hpair (by decide)) (transparent_items rest))

theorem transparent_members : ∀ members : Members, Transparent opening closing members.render
  | .last key before value after =>
      (transparent_key hpair key).append (((transparent_space hpair before).append
        (transparent_value value)).append (transparent_space hpair after))
  | .more key before value after rest =>
      ((transparent_key hpair key).append (((transparent_space hpair before).append
        (transparent_value value)).append (transparent_space hpair after))).append
          (.cons (transparent_byte hpair (by decide)) (transparent_members rest))

end

end Transparency

/-- A well-formed value is cut out whole. -/
theorem valueText_render (value : Value) : ValueText value.render := by
  have hword : ∀ {text : Bytes}, text ≠ [] → (∀ c ∈ text, isBareByte c = true) →
      ValueText text := by
    intro text hne hbare
    obtain ⟨c, rest, rfl⟩ := List.exists_cons_of_ne_nil hne
    obtain ⟨-, hquote, hbrace, hbracket⟩ := isBareByte_spec (hbare c List.mem_cons_self)
    exact .word hquote hbrace hbracket fun d hd => (isBareByte_spec (hbare d hd)).1
  cases value with
  | string s => exact .string (loose_of_stringBody s.ok)
  | number n =>
      obtain ⟨c, rest, htext, -⟩ := number_cons n
      have hne : (Value.number n).render ≠ [] := by
        rw [Value.render, htext]
        exact List.cons_ne_nil _ _
      exact hword hne (isBareByte_number n)
  | boolean b => exact hword (by cases b <;> decide) (isBareByte_literal b)
  | null => exact hword (by decide) isBareByte_null
  | emptyArray space =>
      exact .array (transparent_space .brackets space 0 [closeBracket] (.closed .done))
  | array items => exact .array (transparent_items .brackets items 0 [closeBracket] (.closed .done))
  | emptyObject space =>
      exact .object (transparent_space .braces space 0 [closeBrace] (.closed .done))
  | object members =>
      exact .object (transparent_members .braces members 0 [closeBrace] (.closed .done))

/-- A member in the pieces of the tokenizer. -/
def rawMember (key : Key) (before : Space) (value : Value) (after : Space) : RawMember where
  before := key.before.text
  key := key.name.body
  afterKey := key.after.text
  beforeValue := before.text
  value := value.render
  after := after.text
  beforeBlank := isBlank_space key.before
  keyLoose := loose_of_stringBody key.name.ok
  afterKeyBlank := isBlank_space key.after
  beforeValueBlank := isBlank_space before
  valueText := valueText_render value
  afterBlank := isBlank_space after

/-- The text of a member, in the order of its parts. -/
theorem rawMember_text (key : Key) (before : Space) (value : Value) (after : Space) :
    (rawMember key before value after).text =
      key.text ++ (before.text ++ value.render ++ after.text) := by
  simp [RawMember.text, rawMember, Key.text, StringText.text]

def rawMembers : Members → List RawMember
  | .last key before value after => [rawMember key before value after]
  | .more key before value after rest => rawMember key before value after :: rawMembers rest

/-- The raw members have the text of the members. -/
theorem membersText_rawMembers : ∀ members : Members,
    membersText (rawMembers members) = members.render
  | .last key before value after => by
      rw [rawMembers, Members.render, ← rawMember_text]
      simp [membersText, List.intercalate]
  | .more key before value after rest => by
      have ih := membersText_rawMembers rest
      have hrest : ∃ m members, rawMembers rest = m :: members := by
        cases rest <;> exact ⟨_, _, rfl⟩
      obtain ⟨m, members, hmembers⟩ := hrest
      have hmore := membersText_more (rawMember key before value after) m members []
      rw [List.append_nil, List.append_nil, ← hmembers, ih, rawMember_text] at hmore
      exact hmore

/-- The text of a raw member's value is that of a value. -/
theorem value_of_mem_rawMembers : ∀ (members : Members) {m : RawMember},
    m ∈ rawMembers members → ∃ value : Value, value.render = m.value
  | .last _ _ value _, m, hm => by
      rw [List.mem_singleton.mp hm]
      exact ⟨value, rfl⟩
  | .more _ _ value _ rest, m, hm => by
      rcases List.mem_cons.mp hm with rfl | hm
      · exact ⟨value, rfl⟩
      · exact value_of_mem_rawMembers rest hm

/-- **The members of an object** are those of its tree. -/
theorem tokenizeFlatObject_object {before : Bytes} (hbefore : IsBlank before) (members : Members)
    (tail : Bytes) :
    tokenizeFlatObject (before ++ ((Value.object members).render ++ tail)) =
      some ((rawMembers members).map RawMember.pair) := by
  have hcons : ∃ m others, rawMembers members = m :: others := by
    cases members <;> exact ⟨_, _, rfl⟩
  obtain ⟨m, others, hothers⟩ := hcons
  have htext := membersText_rawMembers members
  rw [hothers] at htext
  have hflat := FlatObject.members hbefore m others tail
  rw [htext, ← hothers] at hflat
  rw [Value.render, List.cons_append, List.append_assoc]
  exact tokenizeFlatObject_text hflat

/-- An empty object has no members, whatever follows. -/
theorem tokenizeFlatObject_emptyObject {before : Bytes} (hbefore : IsBlank before) (space : Space)
    (tail : Bytes) :
    tokenizeFlatObject (before ++ ((Value.emptyObject space).render ++ tail)) = some [] := by
  rw [Value.render, List.cons_append, List.append_assoc]
  exact tokenizeFlatObject_text (.empty hbefore (isBlank_space space) tail)

/-- A leaf one level further down. -/
def underKey (key : Key) (leaf : List Bytes × Double) : List Bytes × Double :=
  (jsonUnescape key.name.body :: leaf.1, leaf.2)

mutual

/-- The numbers and booleans reachable through objects, with the keys on their path. -/
def leavesOf : Value → List (List Bytes × Double)
  | .number n => (parseDouble n.text).toList.map fun v => ([], v)
  | .boolean b => [([], Binary64.ofInt (if b then 1 else 0))]
  | .object members => leavesOfMembers members
  | _ => []

def leavesOfMembers : Members → List (List Bytes × Double)
  | .last key _ value _ => (leavesOf value).map (underKey key)
  | .more key _ value _ rest => (leavesOf value).map (underKey key) ++ leavesOfMembers rest

end

mutual

/-- The keys on the paths are not empty, and the numbers at their ends are accepted by
`parseDouble`. -/
def Readable : Value → Prop
  | .number n => (parseDouble n.text).isSome = true
  | .object members => ReadableMembers members
  | _ => True

def ReadableMembers : Members → Prop
  | .last key _ value _ => jsonUnescape key.name.body ≠ [] ∧ Readable value
  | .more key _ value _ rest =>
      (jsonUnescape key.name.body ≠ [] ∧ Readable value) ∧ ReadableMembers rest

end

mutual

/-- The keys reachable through objects satisfy `p`. -/
def AllKeys (p : Bytes → Prop) : Value → Prop
  | .object members => AllMemberKeys p members
  | _ => True

def AllMemberKeys (p : Bytes → Prop) : Members → Prop
  | .last key _ value _ => p (jsonUnescape key.name.body) ∧ AllKeys p value
  | .more key _ value _ rest =>
      (p (jsonUnescape key.name.body) ∧ AllKeys p value) ∧ AllMemberKeys p rest

end

mutual

/-- The numbers reachable through objects are accepted by `parseDouble`. -/
def NumbersRead : Value → Prop
  | .number n => (parseDouble n.text).isSome = true
  | .object members => MemberNumbersRead members
  | _ => True

def MemberNumbersRead : Members → Prop
  | .last _ _ value _ => NumbersRead value
  | .more _ _ value _ rest => NumbersRead value ∧ MemberNumbersRead rest

end

mutual

/-- Readable values have no empty key and numbers that are read. -/
theorem readable_iff : ∀ value : Value,
    Readable value ↔ AllKeys (· ≠ []) value ∧ NumbersRead value
  | .string _ => by simp [Readable, AllKeys, NumbersRead]
  | .number _ => by simp [Readable, AllKeys, NumbersRead]
  | .boolean _ => by simp [Readable, AllKeys, NumbersRead]
  | .null => by simp [Readable, AllKeys, NumbersRead]
  | .emptyArray _ => by simp [Readable, AllKeys, NumbersRead]
  | .array _ => by simp [Readable, AllKeys, NumbersRead]
  | .emptyObject _ => by simp [Readable, AllKeys, NumbersRead]
  | .object members => readableMembers_iff members

theorem readableMembers_iff : ∀ members : Members,
    ReadableMembers members ↔ AllMemberKeys (· ≠ []) members ∧ MemberNumbersRead members
  | .last key _ value _ => by
      rw [ReadableMembers, AllMemberKeys, MemberNumbersRead, readable_iff value, and_assoc]
  | .more key _ value _ rest => by
      rw [ReadableMembers, AllMemberKeys, MemberNumbersRead, readable_iff value,
        readableMembers_iff rest]
      constructor
      · intro h
        obtain ⟨⟨hkey, hkeys, hnumbers⟩, hrestKeys, hrestNumbers⟩ := h
        exact ⟨⟨⟨hkey, hkeys⟩, hrestKeys⟩, hnumbers, hrestNumbers⟩
      · intro h
        obtain ⟨⟨⟨hkey, hkeys⟩, hrestKeys⟩, hnumbers, hrestNumbers⟩ := h
        exact ⟨⟨hkey, hkeys, hnumbers⟩, hrestKeys, hrestNumbers⟩

end

/-- The name of a path. -/
def pathName (path : List Bytes) : Bytes := (ascii "_").intercalate path

/-- The reference: the leaves of a document under their names. -/
def namedLeaves (doc : Document) : List (Bytes × Double) :=
  (leavesOf doc.value).map fun leaf => (pathName leaf.1, leaf.2)

theorem pathName_cons (first next : Bytes) (path : List Bytes) :
    pathName (first :: next :: path) = first ++ ascii "_" ++ pathName (next :: path) :=
  List.intercalate_cons_cons

/-- Keys joined to a name one after the other. -/
theorem foldl_joinedName (path : List Bytes) {start : Bytes} (hstart : start ≠ []) :
    path.foldl joinedName start = pathName (start :: path) := by
  induction path generalizing start with
  | nil => simp [pathName]
  | cons key path ih =>
      have hjoined : joinedName start key = start ++ ascii "_" ++ key := if_neg hstart
      have hne : joinedName start key ≠ [] := by
        rw [hjoined]
        simp [ascii]
      rw [List.foldl_cons, ih hne, pathName_cons, hjoined]
      cases path with
      | nil => simp [pathName]
      | cons next path =>
          rw [pathName_cons, pathName_cons]
          simp only [List.append_assoc]

/-- Below keys that are not empty the name is that of the path. -/
theorem foldl_joinedName_nil {path : List Bytes} (hpath : ∀ key ∈ path, key ≠ []) :
    path.foldl joinedName [] = pathName path := by
  cases path with
  | nil => rfl
  | cons key path =>
      rw [List.foldl_cons, show joinedName [] key = key from if_pos rfl]
      exact foldl_joinedName path (hpath key List.mem_cons_self)

/-- Leaves below a name. -/
def leavesBelow (name : Bytes) (leaves : List (List Bytes × Double)) : List (Bytes × Double) :=
  leaves.map fun leaf => (leaf.1.foldl joinedName name, leaf.2)

/-- Leaves under a key are named below its joined name. -/
theorem leavesBelow_underKey (parent : Bytes) (key : Key) (leaves : List (List Bytes × Double)) :
    leavesBelow parent (leaves.map (underKey key)) =
      leavesBelow (joinedName parent (jsonUnescape key.name.body)) leaves := by
  simp [leavesBelow, underKey]

/-- A number is read as a number. -/
theorem memberLeaves_number (parent key : Bytes) (n : NumberText) :
    memberLeaves parent (key, n.text) =
      (parseDouble n.text).map fun v => [(joinedName parent key, v)] := by
  obtain ⟨c, rest, htext, hc⟩ := number_cons n
  have hfirst : c ≠ openBrace ∧ c ≠ openBracket ∧ c ≠ quote ∧ c ≠ 116 ∧ c ≠ 102 ∧ c ≠ 110 := by
    have hdigit : ∀ d, isdigit d = true → d ≠ openBrace ∧ d ≠ openBracket ∧ d ≠ quote ∧
        d ≠ 116 ∧ d ≠ 102 ∧ d ≠ 110 := forall_byte (by decide +kernel)
    rcases hc with rfl | hc
    · decide
    · exact hdigit c hc
  obtain ⟨hbrace, hbracket, hquote, htrue, hfalse, hnull⟩ := hfirst
  have hword : ∀ {d : UInt8} {word : Bytes}, c ≠ d → c :: rest ≠ d :: word :=
    fun hne heq => hne (List.cons.inj heq).1
  have htrueWord : c :: rest ≠ ascii "true" := hword htrue
  have hfalseWord : c :: rest ≠ ascii "false" := hword hfalse
  have hnullWord : c :: rest ≠ ascii "null" := hword hnull
  unfold memberLeaves
  rw [htext, List.head?_cons]
  dsimp only
  rw [if_neg hbrace, if_neg (not_or.mpr ⟨hbracket, hquote⟩), if_neg htrueWord,
    if_neg hfalseWord, if_neg hnullWord]

/-- A literal is one leaf. -/
theorem memberLeaves_literal (parent key : Bytes) (b : Bool) :
    memberLeaves parent (key, literal b) =
      some [(joinedName parent key, Binary64.ofInt (if b then 1 else 0))] := by
  have htrue : (ascii "true").head? = some 116 := rfl
  have hfalse : (ascii "false").head? = some 102 := rfl
  cases b with
  | true => simp +decide [memberLeaves, literal, htrue]
  | false => simp +decide [memberLeaves, literal, hfalse]

mutual

/-- **A value contributes its leaves**, below the name it stands under. -/
theorem memberLeaves_render (parent key : Bytes) : ∀ value : Value, NumbersRead value →
    memberLeaves parent (key, value.render) =
      some (leavesBelow (joinedName parent key) (leavesOf value))
  | .string s, _ => rfl
  | .number n, hread => by
      obtain ⟨v, hv⟩ := Option.isSome_iff_exists.mp hread
      rw [Value.render, memberLeaves_number, leavesOf, hv]
      rfl
  | .boolean b, _ => memberLeaves_literal parent key b
  | .null, _ => rfl
  | .emptyArray space, _ => rfl
  | .array items, _ => rfl
  | .emptyObject space, _ => by
      have htokens := tokenizeFlatObject_emptyObject isBlank_nil space []
      rw [List.nil_append, List.append_nil] at htokens
      have hflatten : memberLeaves parent (key, (Value.emptyObject space).render) =
          flattenJsonObjectImpl (Value.emptyObject space).render (joinedName parent key) := rfl
      rw [hflatten, flattenJsonObjectImpl_eq, htokens]
      rfl
  | .object members, hread => by
      have htokens := tokenizeFlatObject_object isBlank_nil members []
      rw [List.nil_append, List.append_nil] at htokens
      have hflatten : memberLeaves parent (key, (Value.object members).render) =
          flattenJsonObjectImpl (Value.object members).render (joinedName parent key) := rfl
      rw [hflatten, flattenJsonObjectImpl_eq, htokens, Option.bind_some,
        pairsLeaves_rawMembers _ members hread, leavesOf]

/-- The leaves of the pairs are those of the members. -/
theorem pairsLeaves_rawMembers (parent : Bytes) : ∀ members : Members, MemberNumbersRead members →
    pairsLeaves parent ((rawMembers members).map RawMember.pair) =
      some (leavesBelow parent (leavesOfMembers members))
  | .last key before value after, hread => by
      have hvalue := memberLeaves_render parent (jsonUnescape key.name.body) value hread
      rw [leavesOfMembers, leavesBelow_underKey, ← List.append_nil (leavesBelow _ _)]
      simp only [rawMembers, List.map_cons, List.map_nil, pairsLeaves, Option.map_some]
      exact Option.bind_eq_some_iff.mpr ⟨_, hvalue, rfl⟩
  | .more key before value after rest, hread => by
      have hvalue := memberLeaves_render parent (jsonUnescape key.name.body) value hread.1
      have hrest := pairsLeaves_rawMembers parent rest hread.2
      have hsplit : leavesBelow parent (leavesOfMembers (.more key before value after rest)) =
          leavesBelow (joinedName parent (jsonUnescape key.name.body)) (leavesOf value) ++
            leavesBelow parent (leavesOfMembers rest) := by
        rw [leavesOfMembers, ← leavesBelow_underKey]
        exact List.map_append
      rw [hsplit]
      simp only [rawMembers, List.map_cons, pairsLeaves, hrest, Option.map_some]
      exact Option.bind_eq_some_iff.mpr ⟨_, hvalue, rfl⟩

end

mutual

/-- What holds of all keys holds of those on a path, by induction along with the members. -/
theorem path_allKeys {p : Bytes → Prop} : ∀ value : Value, AllKeys p value →
    ∀ leaf ∈ leavesOf value, ∀ key ∈ leaf.1, p key
  | .number n, _, leaf, hleaf => by
      obtain ⟨v, -, rfl⟩ := List.mem_map.mp hleaf
      nofun
  | .boolean b, _, leaf, hleaf => by
      rw [List.mem_singleton.mp hleaf]
      nofun
  | .object members, hkeys, leaf, hleaf => path_allMemberKeys members hkeys leaf hleaf
  | .string _, _, _, hleaf => absurd hleaf List.not_mem_nil
  | .null, _, _, hleaf => absurd hleaf List.not_mem_nil
  | .emptyArray _, _, _, hleaf => absurd hleaf List.not_mem_nil
  | .array _, _, _, hleaf => absurd hleaf List.not_mem_nil
  | .emptyObject _, _, _, hleaf => absurd hleaf List.not_mem_nil

theorem path_allMemberKeys {p : Bytes → Prop} : ∀ members : Members, AllMemberKeys p members →
    ∀ leaf ∈ leavesOfMembers members, ∀ key ∈ leaf.1, p key
  | .last key _ value _, hkeys, leaf, hleaf => by
      obtain ⟨inner, hinner, rfl⟩ := List.mem_map.mp hleaf
      exact List.forall_mem_cons.mpr ⟨hkeys.1, path_allKeys value hkeys.2 inner hinner⟩
  | .more key _ value _ rest, hkeys, leaf, hleaf => by
      rcases List.mem_append.mp hleaf with hleaf | hleaf
      · obtain ⟨inner, hinner, rfl⟩ := List.mem_map.mp hleaf
        exact List.forall_mem_cons.mpr ⟨hkeys.1.1, path_allKeys value hkeys.1.2 inner hinner⟩
      · exact path_allMemberKeys rest hkeys.2 leaf hleaf

end

/-- At the top the names are those of the paths. -/
theorem leavesBelow_nil {value : Value} (hkeys : AllKeys (· ≠ []) value) :
    leavesBelow [] (leavesOf value) = (leavesOf value).map fun leaf => (pathName leaf.1, leaf.2) := by
  apply List.map_congr_left
  intro leaf hleaf
  rw [foldl_joinedName_nil (path_allKeys value hkeys leaf hleaf)]

/-- **Flattening a well-formed object** gives its leaves, in document order, with their
keys joined from the top, whatever follows it. -/
theorem flattenJsonObject_leaves {doc : Document} (hobject : doc.value.isObject = true)
    (hread : NumbersRead doc.value) (tail : Bytes) :
    flattenJsonObject (doc.render ++ tail) = some (leavesBelow [] (leavesOf doc.value)) := by
  have hblank := isBlank_space doc.before
  have htext : doc.render ++ tail =
      doc.before.text ++ (doc.value.render ++ (doc.after.text ++ tail)) := by
    simp [Document.render]
  unfold flattenJsonObject
  rw [flattenJsonObjectImpl_eq, htext]
  cases hvalue : doc.value with
  | emptyObject space =>
      rw [tokenizeFlatObject_emptyObject hblank]
      rfl
  | object members =>
      rw [hvalue] at hread
      rw [tokenizeFlatObject_object hblank, Option.bind_some,
        pairsLeaves_rawMembers [] members hread, leavesOf]
  | string | number | boolean | null | emptyArray | array =>
      rw [hvalue] at hobject
      cases hobject

/-- With keys that are not empty the names are those of the paths. -/
theorem flattenJsonObject_document {doc : Document} (hobject : doc.value.isObject = true)
    (hread : Readable doc.value) (tail : Bytes) :
    flattenJsonObject (doc.render ++ tail) = some (namedLeaves doc) := by
  obtain ⟨hkeys, hnumbers⟩ := (readable_iff doc.value).mp hread
  rw [flattenJsonObject_leaves hobject hnumbers, leavesBelow_nil hkeys, namedLeaves]

/-- The leaves of a well-formed object come behind what the caller's vector holds. -/
theorem flatten_wellFormed {doc : Document} (hobject : doc.value.isObject = true)
    (hread : Readable doc.value) (out : List (Bytes × Double)) :
    flattenInto doc.render [] out = (true, out ++ namedLeaves doc) := by
  have happends := flattenInto_appends doc.render [] out
  have hleaves := flattenJsonObject_document hobject hread []
  rw [List.append_nil] at hleaves
  rw [show flattenJsonObjectImpl doc.render [] = some (namedLeaves doc) from hleaves] at happends
  exact happends

theorem stringBody_a : StringBody [97] := .plain (by decide) (by decide) (by decide) .nil

/-- A key without escapes and blanks. -/
def plainKey (name : Bytes) (h : StringBody name) : Key := ⟨.none, ⟨name, h⟩, .none⟩

def nestedDocument : Document where
  before := ⟨[32], by decide +kernel⟩
  value := .object (.more (plainKey [97] stringBody_a) .none
    (.object (.last (plainKey [98] (.plain (by decide) (by decide) (by decide) .nil)) .none
      (.boolean true) .none)) .none
    (.last (plainKey [99] (.plain (by decide) (by decide) (by decide) .nil)) .none
      (.array (.last .none (.string ⟨[125], .plain (by decide) (by decide) (by decide) .nil⟩)
        .none)) .none))
  after := .none

/-- In `\x7b"a":\x7b"b":true\x7d,"c":["\x7d"]\x7d` the brace in the string does not matter. -/
theorem flatten_wellFormed_nested :
    nestedDocument.render = ascii " \x7b\"a\":\x7b\"b\":true\x7d,\"c\":[\"\x7d\"]\x7d" ∧
      flattenInto nestedDocument.render [] [(ascii "old", Binary64.ofInt 0)] =
        (true, [(ascii "old", Binary64.ofInt 0), (ascii "a_b", Binary64.ofInt 1)]) := by
  have hread : Readable nestedDocument.value :=
    ⟨⟨by decide, by decide, trivial⟩, by decide, trivial⟩
  have hleaves : namedLeaves nestedDocument = [(ascii "a_b", Binary64.ofInt 1)] := by
    decide +kernel
  have hflatten := flatten_wellFormed rfl hread
    [(ascii "old", Binary64.ofInt 0)]
  rw [hleaves] at hflatten
  exact ⟨by decide +kernel, hflatten⟩

end Nshmqtt
