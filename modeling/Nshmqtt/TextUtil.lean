import Nshmqtt.DecimalRoundTrip

/-!
# Text helpers

`text_util.cpp`: JSON and header escaping, the one text form of a stored value
(`formatDouble`), the strict parsers built on `strtod` and `strtol`, and the
token comparison.  The parsers trim whitespace and then hand the C string to the
library, so what follows a NUL byte is never seen by them.
-/

namespace Nshmqtt

open ByteStrings DecimalText

/-- The values of the store. -/
abbrev Double := Binary64

/-- A lower-case hexadecimal digit. -/
def hexDigit (n : Nat) : UInt8 := if n < 10 then 48 + UInt8.ofNat n else 87 + UInt8.ofNat n

/-- How one byte stands inside a JSON string literal. -/
def escapeByte (c : UInt8) : Bytes :=
  if c = quote then [backslash, quote]
  else if c = backslash then [backslash, backslash]
  else if c = 8 then [backslash, 98]
  else if c = 12 then [backslash, 102]
  else if c = 10 then [backslash, 110]
  else if c = 13 then [backslash, 114]
  else if c = 9 then [backslash, 116]
  else if c < 0x20 then
    [backslash, 117, zeroDigit, zeroDigit, hexDigit (c.toNat / 16), hexDigit (c.toNat % 16)]
  else [c]

def jsonEscape (s : Bytes) : Bytes := s.flatMap escapeByte

/-- Drop control bytes before a value is put into a header or a log line. -/
def sanitizeHeaderValue (s : Bytes) : Bytes :=
  s.filter fun c => !(c == 13 || c == 10 || c < 0x20 || c == 0x7f)

/-- `std::setprecision(9)` in the default float format. -/
def formatDouble (v : Double) : Bytes := formatGeneral 9 v

def trimWs (s : Bytes) : Bytes := trimBoth isspace s

/-- The strict acceptance test: a conversion without range error that read the
C string to its end. -/
def accepted {α : Type} : Option (Converted α) → Option α
  | none => none
  | some converted =>
      if converted.outOfRange ∨ converted.rest ≠ [] then none else some converted.value

/-- A conversion is accepted in range and read to its end. -/
theorem accepted_eq_some {α : Type} {converted : Option (Converted α)} {value : α} :
    accepted converted = some value ↔
      ∃ c, converted = some c ∧ c.outOfRange = false ∧ c.rest = [] ∧ c.value = value := by
  cases converted with
  | none => simp [accepted]
  | some c => by_cases hrange : c.outOfRange = true <;> simp [accepted, hrange]

/-- What both strict parsers do around the library's conversion. -/
def acceptConverted {α : Type} (convert : Bytes → Option (Converted α)) (text : Bytes) :
    Option α :=
  let trimmed := trimWs text
  if trimmed = [] then none else accepted (convert (cString trimmed))

def parseDouble (text : Bytes) : Option Double := acceptConverted strtod text

def parseInt (text : Bytes) : Option Int := acceptConverted (strtol 10) text

def parseBool (text : Bytes) : Option Bool :=
  let v := toLower (trimWs text)
  if v = ascii "1" ∨ v = ascii "true" ∨ v = ascii "yes" ∨ v = ascii "on" then some true
  else if v = ascii "0" ∨ v = ascii "false" ∨ v = ascii "no" ∨ v = ascii "off" then some false
  else none

/-- The byte at `i`, or zero past the end. -/
def byteOrZero (s : Bytes) (i : Nat) : UInt8 := s.getD i 0

/-- OR together the differences of all positions of the longer string. -/
def constantTimeEquals (a b : Bytes) : Bool :=
  let start : UInt8 := if a.length ≠ b.length then 1 else 0
  let diff := (List.range (max a.length b.length)).foldl
    (fun diff i => diff ||| (byteOrZero a i ^^^ byteOrZero b i)) start
  diff == 0

/-- An `or` is zero when both sides are. -/
theorem or_eq_zero_iff (a b : UInt8) : a ||| b = 0 ↔ a = 0 ∧ b = 0 := by
  rw [← UInt8.toNat_inj, ← UInt8.toNat_inj, ← UInt8.toNat_inj, UInt8.toNat_or]
  exact Nat.or_eq_zero_iff

/-- An `xor` is zero when both sides are the same. -/
theorem xor_eq_zero_iff (a b : UInt8) : a ^^^ b = 0 ↔ a = b := by
  constructor
  · intro h
    calc a = a ^^^ (b ^^^ b) := by simp
      _ = a ^^^ b ^^^ b := (UInt8.xor_assoc a b b).symm
      _ = b := by simp [h]
  · intro h
    simp [h]

/-- The accumulated difference vanishes only if no position differs. -/
theorem foldl_or_eq_zero_iff (f : Nat → UInt8) (start : UInt8) (l : List Nat) :
    l.foldl (fun diff i => diff ||| f i) start = 0 ↔ start = 0 ∧ ∀ i ∈ l, f i = 0 := by
  induction l generalizing start with
  | nil => simp
  | cons i rest ih =>
      rw [List.foldl_cons, ih, or_eq_zero_iff]
      simp [and_assoc]

/-- **The comparison is equality**, for all byte strings and lengths. -/
theorem constantTimeEquals_iff (a b : Bytes) : constantTimeEquals a b = true ↔ a = b := by
  unfold constantTimeEquals
  simp only [beq_iff_eq, foldl_or_eq_zero_iff, List.mem_range, xor_eq_zero_iff]
  constructor
  · intro h
    have hlength : a.length = b.length := by
      by_contra hne
      have hone := h.1
      rw [if_pos hne] at hone
      exact absurd hone (by decide)
    apply List.ext_getElem hlength
    intro i hi hi'
    have hbyte := h.2 i (by omega)
    simpa [byteOrZero, List.getD_eq_getElem?_getD, hi, hi'] using hbyte
  · intro h
    subst h
    simp

/-- The text of a double has no whitespace and no NUL. -/
theorem isspace_of_formatByte (c : UInt8) : formatByte c = true → isspace c = false ∧ c ≠ 0 :=
  forall_byte (p := fun c => formatByte c = true → isspace c = false ∧ c ≠ 0)
    (by decide +kernel) c

/-- Text without whitespace and NUL reaches the library unchanged. -/
theorem trimWs_of_plain {s : Bytes} (hs : ∀ c ∈ s, isspace c = false) : trimWs s = s := by
  have hleft : s.dropWhile isspace = s := by
    cases s with
    | nil => rfl
    | cons c rest => rw [List.dropWhile_cons_of_neg (by simp [hs c List.mem_cons_self])]
  unfold trimWs trimBoth
  rw [hleft]
  induction s using List.reverseRecOn with
  | nil => rfl
  | append_singleton rest c ih =>
      rw [List.rdropWhile_concat_neg _ _ _ (by simp [hs c (by simp)])]

/-- A text without a NUL is its own C string. -/
theorem cString_of_plain {s : Bytes} (hs : ∀ c ∈ s, c ≠ 0) : cString s = s := by
  unfold cString
  exact List.takeWhile_eq_self_iff.mpr fun c hc => by simpa using hs c hc

/-- A formatted value is handed to `strtod` as it stands. -/
theorem parseDouble_formatDouble (v : Double) :
    parseDouble (formatDouble v) = accepted (strtod (formatDouble v)) := by
  have hplain := fun c (hc : c ∈ formatDouble v) =>
    isspace_of_formatByte c (formatByte_formatGeneral hc)
  have htrim : trimWs (formatDouble v) = formatDouble v :=
    trimWs_of_plain fun c hc => (hplain c hc).1
  have hstring : cString (formatDouble v) = formatDouble v :=
    cString_of_plain fun c hc => (hplain c hc).2
  have hne : formatDouble v ≠ [] := formatGeneral_ne_nil v
  simp only [parseDouble, acceptConverted, htrim, hstring, hne, if_false]

end Nshmqtt
