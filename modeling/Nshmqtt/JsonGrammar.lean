import Nshmqtt.ByteStrings

/-!
# The JSON grammar

RFC 8259 on bytes: a byte from `0x80` on may stand in a string, whatever it is part
of.  A text is the rendering of a syntax tree that also has the blanks, so every
well-formed text is some tree's rendering and no tree renders to anything else.  The
leaves of the trees carry their own well-formedness.
-/

namespace JsonGrammar

open ByteStrings

/-- Space, tab, line feed and carriage return. -/
def isBlank (c : UInt8) : Bool := c == 32 || c == 9 || c == 10 || c == 13

/-- Optional whitespace. -/
structure Space where
  text : Bytes
  blank : ∀ c ∈ text, isBlank c = true

def Space.none : Space := ⟨[], nofun⟩

/-- The letters of the two-byte escapes. -/
def isEscapeLetter (e : UInt8) : Bool :=
  e == quote || e == backslash || e == slash || e == 98 || e == 102 || e == 110 || e == 114 ||
    e == 116

/-- What may stand between the quotes of a string. -/
inductive StringBody : Bytes → Prop
  | nil : StringBody []
  | plain {c : UInt8} {rest : Bytes} (visible : 0x20 ≤ c) (notQuote : c ≠ quote)
      (notBackslash : c ≠ backslash) (tail : StringBody rest) : StringBody (c :: rest)
  | escape {e : UInt8} {rest : Bytes} (letter : isEscapeLetter e = true)
      (tail : StringBody rest) : StringBody (backslash :: e :: rest)
  | unicode {h1 h2 h3 h4 : UInt8} {rest : Bytes} (first : isxdigit h1 = true)
      (second : isxdigit h2 = true) (third : isxdigit h3 = true) (fourth : isxdigit h4 = true)
      (tail : StringBody rest) : StringBody (backslash :: 117 :: h1 :: h2 :: h3 :: h4 :: rest)

structure StringText where
  body : Bytes
  ok : StringBody body

def StringText.text (s : StringText) : Bytes := quote :: (s.body ++ [quote])

/-- The three parts of a number.  A fraction without digits is no fraction, and an
exponent without digits no exponent. -/
structure NumberText where
  negative : Bool
  whole : Bytes
  fraction : Bytes
  marker : UInt8
  sign : Bytes
  exponent : Bytes
  wholeNonempty : whole ≠ []
  wholeDigits : ∀ c ∈ whole, isdigit c = true
  /-- Only zero starts with a zero. -/
  noLeadingZero : whole.head? = some zeroDigit → whole = [zeroDigit]
  fractionDigits : ∀ c ∈ fraction, isdigit c = true
  markerOk : marker = 101 ∨ marker = 69
  signOk : sign = [] ∨ sign = [plus] ∨ sign = [minus]
  exponentDigits : ∀ c ∈ exponent, isdigit c = true

namespace NumberText

def fractionText (n : NumberText) : Bytes :=
  if n.fraction = [] then [] else point :: n.fraction

def exponentText (n : NumberText) : Bytes :=
  if n.exponent = [] then [] else n.marker :: (n.sign ++ n.exponent)

def text (n : NumberText) : Bytes :=
  (if n.negative then [minus] else []) ++ n.whole ++ n.fractionText ++ n.exponentText

/-- The bytes of a number. -/
theorem mem_text {n : NumberText} {c : UInt8} (hc : c ∈ n.text) :
    isdigit c = true ∨ c ∈ [point, plus, minus, 101, 69] := by
  have hmarker : n.marker ∈ [point, plus, minus, 101, 69] := by
    rcases n.markerOk with h | h <;> rw [h] <;> decide
  have hsign : ∀ d ∈ n.sign, d ∈ [point, plus, minus, 101, 69] := by
    rcases n.signOk with h | h | h <;> rw [h] <;> decide +kernel
  simp only [text, fractionText, exponentText, List.mem_append] at hc
  rcases hc with ((hc | hc) | hc) | hc
  · split_ifs at hc
    · rw [List.mem_singleton.mp hc]
      exact .inr (by decide)
    · cases hc
  · exact .inl (n.wholeDigits c hc)
  · split_ifs at hc
    · cases hc
    · rcases List.mem_cons.mp hc with rfl | hc
      · exact .inr (by decide)
      · exact .inl (n.fractionDigits c hc)
  · split_ifs at hc
    · cases hc
    · rcases List.mem_cons.mp hc with rfl | hc
      · exact .inr hmarker
      · rcases List.mem_append.mp hc with hc | hc
        · exact .inr (hsign c hc)
        · exact .inl (n.exponentDigits c hc)

end NumberText

/-- The name of a member, up to its colon. -/
structure Key where
  before : Space
  name : StringText
  after : Space

def Key.text (key : Key) : Bytes :=
  key.before.text ++ key.name.text ++ key.after.text ++ [colon]

mutual

inductive Value
  | string (s : StringText)
  | number (n : NumberText)
  | boolean (b : Bool)
  | null
  | emptyArray (space : Space)
  | array (items : Items)
  | emptyObject (space : Space)
  | object (members : Members)

/-- One or more values with commas between them. -/
inductive Items
  | last (before : Space) (value : Value) (after : Space)
  | more (before : Space) (value : Value) (after : Space) (rest : Items)

/-- One or more members with commas between them. -/
inductive Members
  | last (key : Key) (before : Space) (value : Value) (after : Space)
  | more (key : Key) (before : Space) (value : Value) (after : Space) (rest : Members)

end

def literal (b : Bool) : Bytes := if b then ascii "true" else ascii "false"

mutual

def Value.render : Value → Bytes
  | .string s => s.text
  | .number n => n.text
  | .boolean b => literal b
  | .null => ascii "null"
  | .emptyArray space => openBracket :: (space.text ++ [closeBracket])
  | .array items => openBracket :: (items.render ++ [closeBracket])
  | .emptyObject space => openBrace :: (space.text ++ [closeBrace])
  | .object members => openBrace :: (members.render ++ [closeBrace])

def Items.render : Items → Bytes
  | .last before value after => before.text ++ value.render ++ after.text
  | .more before value after rest =>
      before.text ++ value.render ++ after.text ++ comma :: rest.render

def Members.render : Members → Bytes
  | .last key before value after =>
      key.text ++ (before.text ++ value.render ++ after.text)
  | .more key before value after rest =>
      key.text ++ (before.text ++ value.render ++ after.text) ++ comma :: rest.render

end

def Value.isObject : Value → Bool
  | .emptyObject _ => true
  | .object _ => true
  | _ => false

/-- A value with what surrounds it. -/
structure Document where
  before : Space
  value : Value
  after : Space

def Document.render (doc : Document) : Bytes :=
  doc.before.text ++ doc.value.render ++ doc.after.text

/-- A well-formed text. -/
def IsJson (text : Bytes) : Prop := ∃ doc : Document, doc.render = text

/-- A well-formed text of one object. -/
def IsJsonObject (text : Bytes) : Prop :=
  ∃ doc : Document, doc.value.isObject = true ∧ doc.render = text

theorem IsJsonObject.isJson {text : Bytes} (h : IsJsonObject text) : IsJson text := by
  obtain ⟨doc, -, hdoc⟩ := h
  exact ⟨doc, hdoc⟩

def IsValue (text : Bytes) : Prop := ∃ value : Value, value.render = text

def IsMembers (text : Bytes) : Prop := ∃ members : Members, members.render = text

/-- String bodies can be put one behind the other. -/
theorem StringBody.append {first second : Bytes} (hfirst : StringBody first)
    (hsecond : StringBody second) : StringBody (first ++ second) := by
  induction hfirst with
  | nil => exact hsecond
  | plain visible notQuote notBackslash _ ih => exact .plain visible notQuote notBackslash ih
  | escape letter _ ih => exact .escape letter ih
  | unicode first second third fourth _ ih => exact .unicode first second third fourth ih

theorem isValue_string {body : Bytes} (hbody : StringBody body) :
    IsValue (quote :: (body ++ [quote])) :=
  ⟨.string ⟨body, hbody⟩, rfl⟩

theorem isValue_literal (b : Bool) : IsValue (literal b) :=
  ⟨.boolean b, rfl⟩

/-- A member without blanks. -/
theorem isMembers_last {name value : Bytes} (hname : StringBody name) (hvalue : IsValue value) :
    IsMembers (quote :: (name ++ quote :: colon :: value)) := by
  obtain ⟨tree, rfl⟩ := hvalue
  refine ⟨.last ⟨.none, ⟨name, hname⟩, .none⟩ .none tree .none, ?_⟩
  simp [Members.render, Key.text, StringText.text, Space.none]

/-- A member, a comma and further members. -/
theorem isMembers_more {name value rest : Bytes} (hname : StringBody name)
    (hvalue : IsValue value) (hrest : IsMembers rest) :
    IsMembers (quote :: (name ++ quote :: colon :: (value ++ comma :: rest))) := by
  obtain ⟨tree, rfl⟩ := hvalue
  obtain ⟨members, rfl⟩ := hrest
  refine ⟨.more ⟨.none, ⟨name, hname⟩, .none⟩ .none tree .none members, ?_⟩
  simp [Members.render, Key.text, StringText.text, Space.none]

/-- Members between braces. -/
theorem isJsonObject_members {text : Bytes} (h : IsMembers text) :
    IsJsonObject (openBrace :: (text ++ [closeBrace])) := by
  obtain ⟨members, rfl⟩ := h
  refine ⟨⟨.none, .object members, .none⟩, rfl, ?_⟩
  simp [Document.render, Value.render, Space.none]

theorem isJsonObject_empty : IsJsonObject [openBrace, closeBrace] :=
  ⟨⟨.none, .emptyObject .none, .none⟩, rfl, rfl⟩

end JsonGrammar
