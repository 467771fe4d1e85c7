import Nshmqtt.NumberGrammar
import Nshmqtt.TextUtil

/-!
# How strict the strict parsers are

`parseDouble` and `parseInt` promise that nothing but the number is in the text.  They
hand the C string to the library and look whether it was read to its end, which is the
first NUL byte: a number before a NUL byte is accepted with anything behind it.
-/

namespace Nshmqtt

open ByteStrings DecimalText

/-- No whitespace is in front of what is handed to the library. -/
theorem dropWhile_cString_trimWs (text : Bytes) :
    (cString (trimWs text)).dropWhile isspace = cString (trimWs text) := by
  have hstart : cString (trimWs text) <+: text.dropWhile isspace :=
    (List.takeWhile_prefix _).trans (List.rdropWhile_prefix _ _)
  have hhead := List.head?_dropWhile_not isspace text
  cases hstring : cString (trimWs text) with
  | nil => rfl
  | cons c rest =>
      obtain ⟨more, hmore⟩ := hstart
      rw [hstring] at hmore
      rw [← hmore, List.cons_append, List.head?_cons] at hhead
      exact List.dropWhile_cons_of_neg (by simp [hhead])

section Parser

variable {α : Type}

/-- The text is a number of the grammar, and its conversion reports no range error. -/
def NumberInRange (convert : Bytes → Option (Converted α)) (IsNumber : Bytes → Prop)
    (s : Bytes) : Prop :=
  IsNumber s ∧ ∃ converted, convert s = some converted ∧ converted.outOfRange = false

variable {convert : Bytes → Option (Converted α)} {IsNumber : Bytes → Prop}

variable (hempty : convert [] = none)

variable (hsound : ∀ s converted, convert s = some converted → converted.rest = [] →
  IsNumber (s.dropWhile isspace))

variable (hcomplete : ∀ s, IsNumber s →
  ∃ converted, convert s = some converted ∧ converted.rest = [])

variable (hnul : ∀ s, IsNumber s → (0 : UInt8) ∉ s)

include hempty hsound hcomplete

/-- A text is accepted when what stands before its first NUL byte is a number in range. -/
theorem acceptConverted_isSome_iff (text : Bytes) :
    (acceptConverted convert text).isSome = true ↔
      NumberInRange convert IsNumber (cString (trimWs text)) := by
  unfold acceptConverted NumberInRange
  dsimp only
  by_cases htrim : trimWs text = []
  · have hnone : convert (cString (trimWs text)) = none := by
      rw [htrim]
      exact hempty
    rw [if_pos htrim, hnone]
    simp
  · rw [if_neg htrim, Option.isSome_iff_exists]
    constructor
    · intro h
      obtain ⟨value, hvalue⟩ := h
      obtain ⟨converted, hconverted, hrange, hrest, -⟩ := accepted_eq_some.mp hvalue
      have hnumber := hsound _ _ hconverted hrest
      rw [dropWhile_cString_trimWs] at hnumber
      exact ⟨hnumber, converted, hconverted, hrange⟩
    · intro h
      obtain ⟨hnumber, converted, hconverted, hrange⟩ := h
      obtain ⟨converted', hconverted', hrest⟩ := hcomplete _ hnumber
      rw [hconverted, Option.some.injEq] at hconverted'
      subst hconverted'
      exact ⟨_, accepted_eq_some.mpr ⟨converted, hconverted, hrange, hrest, rfl⟩⟩

include hnul

/-- The whole text is a number unless it is one up to its first NUL byte only. -/
theorem number_of_accepted_iff (text : Bytes) :
    ((acceptConverted convert text).isSome = true → IsNumber (trimWs text)) ↔
      ¬ ((0 : UInt8) ∈ trimWs text ∧
        NumberInRange convert IsNumber (cString (trimWs text))) := by
  rw [acceptConverted_isSome_iff hempty hsound hcomplete]
  constructor
  · intro hwhole h
    obtain ⟨hzero, hnumber⟩ := h
    exact hnul _ (hwhole hnumber) hzero
  · intro hplain hnumber
    have hzero : (0 : UInt8) ∉ trimWs text := fun hzero => hplain ⟨hzero, hnumber⟩
    have hstring : cString (trimWs text) = trimWs text :=
      cString_of_plain fun c hc hc0 => hzero (hc0 ▸ hc)
    rw [hstring] at hnumber
    exact hnumber.1

end Parser

/-- What `strtod` reads to the end is a float. -/
theorem floatText_of_strtod (s : Bytes) (converted : Converted Binary64)
    (h : strtod s = some converted) (hrest : converted.rest = []) :
    FloatText (s.dropWhile isspace) := by
  obtain ⟨number, hnumber, hsplit⟩ := strtod_sound h
  rw [hrest, List.append_nil] at hsplit
  rw [← hsplit]
  exact hnumber

/-- What `strtol` reads to the end is an integer. -/
theorem longText_of_strtol (s : Bytes) (converted : Converted Int)
    (h : strtol 10 s = some converted) (hrest : converted.rest = []) :
    LongText (s.dropWhile isspace) := by
  obtain ⟨negative, sign, digits, hsign, hne, hdigits, hsplit, -⟩ := strtol_sound h
  rw [hrest, List.append_nil] at hsplit
  exact ⟨negative, sign, digits, hsign, hne, hdigits, hsplit⟩

/-- What is promised for a text: it is accepted only if all its bytes, without the
whitespace around them, form one number. -/
def ReadsWhole (text : Bytes) : Prop :=
  ((parseDouble text).isSome = true → FloatText (trimWs text)) ∧
    ((parseInt text).isSome = true → LongText (trimWs text))

/-- The text has a NUL byte, and what stands before the first one is a number in range. -/
def HidesBytes (text : Bytes) : Prop :=
  (0 : UInt8) ∈ trimWs text ∧
    (NumberInRange strtod FloatText (cString (trimWs text)) ∨
      NumberInRange (strtol 10) LongText (cString (trimWs text)))

/-- **When the parsers read the whole text**: unless it hides bytes behind a NUL byte. -/
theorem readsWhole_iff (text : Bytes) : ReadsWhole text ↔ ¬ HidesBytes text := by
  have hdouble := number_of_accepted_iff rfl floatText_of_strtod (fun _ h => strtod_complete h)
    (fun _ h => h.zero_not_mem) text
  have hint := number_of_accepted_iff rfl longText_of_strtol (fun _ h => strtol_complete h)
    (fun _ h => h.zero_not_mem) text
  unfold ReadsWhole HidesBytes parseDouble parseInt
  rw [hdouble, hint, ← not_or, ← and_or_left]

/-- `1`, a NUL byte and more: both parsers return one. -/
theorem not_readsWhole :
    parseDouble (ascii "1" ++ 0 :: ascii "junk") = some (Binary64.ofInt 1) ∧
      parseInt (ascii "1" ++ 0 :: ascii "junk") = some 1 ∧
      ¬ ReadsWhole (ascii "1" ++ 0 :: ascii "junk") := by
  refine ⟨by decide +kernel, by decide +kernel, ?_⟩
  intro h
  obtain ⟨hdouble, -⟩ := h
  exact (hdouble (by decide +kernel)).zero_not_mem (by decide +kernel)

end Nshmqtt
