import Nshmqtt.JsonLeaves
import Nshmqtt.MessageHandler

/-!
# Malformed messages

A payload that is no well-formed object should be refused as a whole.  What the reader
really accepts is a looser language, in which only the frame of each object is checked:
text after a closing brace, the inside of an array and the bytes of a string are never
looked at, blanks include the vertical tab and the form feed, and any text that `strtod`
reads is a number.  A payload of that language that is not well-formed is taken for an
object; every other malformed payload is refused.
-/

namespace Nshmqtt

open ByteStrings DecimalText JsonGrammar

/-- A value that is not descended into: a string, an array, a literal, or whatever is
accepted as a number. -/
def LooseScalar (value : Bytes) : Prop :=
  value.head? = some openBracket ∨ value.head? = some quote ∨ value = ascii "true" ∨
    value = ascii "false" ∨ value = ascii "null" ∨ (parseDouble value).isSome = true

/-- The objects of the reader. -/
inductive LooseObject : Bytes → Prop
  | intro {text : Bytes} {members : List RawMember} (flat : FlatObject text members)
      (objects : ∀ m ∈ members, m.value.head? = some openBrace → LooseObject m.value)
      (scalars : ∀ m ∈ members, m.value.head? ≠ some openBrace → LooseScalar m.value) :
      LooseObject text

/-- A member is accepted by its value alone. -/
theorem memberLeaves_isSome_iff (parent : Bytes) (m : RawMember) :
    (memberLeaves parent m.pair).isSome = true ↔
      (m.value.head? = some openBrace ∧
        (flattenJsonObjectImpl m.value (joinedName parent (jsonUnescape m.key))).isSome = true) ∨
      (m.value.head? ≠ some openBrace ∧ LooseScalar m.value) := by
  obtain ⟨c, rest, hvalue, -⟩ := m.valueText.cons
  unfold memberLeaves LooseScalar
  simp only [RawMember.pair, hvalue, List.head?_cons, Option.some.injEq]
  by_cases hbrace : c = openBrace
  · simp [hbrace]
  · by_cases hopaque : c = openBracket ∨ c = quote
    · rw [if_neg hbrace, if_pos hopaque]
      rcases hopaque with rfl | rfl <;> simp +decide
    · rw [if_neg hbrace, if_neg hopaque]
      rw [not_or] at hopaque
      split_ifs <;> simp_all

/-- Pairs have leaves when each of them has. -/
theorem pairsLeaves_isSome_iff (parent : Bytes) (pairs : List (Bytes × Bytes)) :
    (pairsLeaves parent pairs).isSome = true ↔
      ∀ kv ∈ pairs, (memberLeaves parent kv).isSome = true := by
  induction pairs with
  | nil => simp [pairsLeaves]
  | cons kv pairs ih =>
      rw [List.forall_mem_cons, ← ih, pairsLeaves]
      cases memberLeaves parent kv with
      | none => simp
      | some first => simp

/-- What is flattened is a loose object, by induction over the text. -/
theorem looseObject_of_isSome {text parent : Bytes}
    (h : (flattenJsonObjectImpl text parent).isSome = true) : LooseObject text := by
  induction hn : text.length using Nat.strong_induction_on generalizing text parent with
  | _ n ih =>
      subst hn
      obtain ⟨leaves, hleaves⟩ := Option.isSome_iff_exists.mp h
      rw [flattenJsonObjectImpl_eq] at hleaves
      obtain ⟨pairs, htokens, hpairs⟩ := Option.bind_eq_some_iff.mp hleaves
      have hmembers := (pairsLeaves_isSome_iff parent pairs).mp (by rw [hpairs]; rfl)
      obtain ⟨members, hflat, rfl⟩ := text_of_tokenizeFlatObject htokens
      refine .intro hflat (fun m hm hbrace => ?_) (fun m hm hbrace => ?_)
      · have hpair := List.mem_map_of_mem (f := RawMember.pair) hm
        have hlt := tokenizeFlatObject_length htokens _ hpair
        rcases (memberLeaves_isSome_iff parent m).mp (hmembers _ hpair) with ⟨-, hobject⟩ | ⟨hno, -⟩
        · exact ih _ hlt hobject rfl
        · exact absurd hbrace hno
      · have hpair := List.mem_map_of_mem (f := RawMember.pair) hm
        rcases (memberLeaves_isSome_iff parent m).mp (hmembers _ hpair) with ⟨hyes, -⟩ | ⟨-, hscalar⟩
        · exact absurd hyes hbrace
        · exact hscalar

theorem isSome_of_looseObject {text : Bytes} (h : LooseObject text) (parent : Bytes) :
    (flattenJsonObjectImpl text parent).isSome = true := by
  induction h generalizing parent with
  | @intro text members flat objects scalars ih =>
      rw [flattenJsonObjectImpl_eq, tokenizeFlatObject_text flat, Option.bind_some,
        pairsLeaves_isSome_iff]
      intro kv hkv
      obtain ⟨m, hm, rfl⟩ := List.mem_map.mp hkv
      rw [memberLeaves_isSome_iff]
      by_cases hbrace : m.value.head? = some openBrace
      · exact .inl ⟨hbrace, ih m hm hbrace _⟩
      · exact .inr ⟨hbrace, scalars m hm hbrace⟩

/-- **What is accepted.** -/
theorem flattenJsonObject_isSome_iff (text : Bytes) :
    (flattenJsonObject text).isSome = true ↔ LooseObject text :=
  ⟨looseObject_of_isSome, fun h => isSome_of_looseObject h []⟩

/-- An ignored message changes nothing. -/
theorem messageHandler_of_none {cfg : Config} {store : StateStore} {msg : IncomingMessage}
    (htopic : msg.topic ∈ cfg.prometheusMqttJsonTopics)
    (h : flattenJsonObject msg.payload = none) : (messageHandler cfg store msg).store = store := by
  have hupdates : messageUpdates cfg msg.topic msg.payload = none := by
    unfold messageUpdates
    rw [if_pos htopic, h]
    split_ifs <;> rfl
  unfold messageHandler
  rw [hupdates]
  rfl

/-- What is promised for a payload: unless it is a well-formed object, the reader returns
false and the handler leaves the store alone. -/
def RejectsMalformed (payload : Bytes) : Prop :=
  ¬ IsJsonObject payload →
    (∀ out, (flattenInto payload [] out).1 = false) ∧
      ∀ (cfg : Config) (store : StateStore) (msg : IncomingMessage), msg.payload = payload →
        msg.topic ∈ cfg.prometheusMqttJsonTopics → (messageHandler cfg store msg).store = store

/-- The result of the source is whether there are leaves. -/
theorem flattenInto_fst (text parent : Bytes) (out : List (Bytes × Double)) :
    (flattenInto text parent out).1 = (flattenJsonObjectImpl text parent).isSome := by
  have happends := flattenInto_appends text parent out
  cases hleaves : flattenJsonObjectImpl text parent with
  | none =>
      rw [hleaves] at happends
      exact happends.1
  | some leaves =>
      rw [hleaves] at happends
      rw [show flattenInto text parent out = (true, out ++ leaves) from happends]
      rfl

/-- **Which payloads keep the promise**: the well-formed objects, and whatever is not
even loosely an object. -/
theorem rejectsMalformed_iff (payload : Bytes) :
    RejectsMalformed payload ↔ IsJsonObject payload ∨ ¬ LooseObject payload := by
  constructor
  · intro hrejects
    by_cases hobject : IsJsonObject payload
    · exact .inl hobject
    · refine .inr fun hloose => ?_
      have hfalse := (hrejects hobject).1 []
      rw [flattenInto_fst, isSome_of_looseObject hloose] at hfalse
      cases hfalse
  · intro hcase hmalformed
    rcases hcase with hobject | hloose
    · exact absurd hobject hmalformed
    · have hnone : flattenJsonObject payload = none := by
        rw [← Option.not_isSome_iff_eq_none, flattenJsonObject_isSome_iff]
        exact hloose
      refine ⟨fun out => ?_, fun cfg store msg hpayload htopic => ?_⟩
      · rw [flattenInto_fst]
        exact Option.isSome_eq_false_iff.mpr (Option.isNone_iff_eq_none.mpr hnone)
      · exact messageHandler_of_none htopic (by rw [hpayload]; exact hnone)

/-- The text of an object ends with its brace and blanks. -/
theorem getLast_isJsonObject {text : Bytes} (h : IsJsonObject text) :
    ∀ c ∈ text.getLast?, c = closeBrace ∨ isBlank c = true := by
  obtain ⟨doc, hobject, rfl⟩ := h
  intro c hc
  have hvalue : ∃ inner, doc.value.render = inner ++ [closeBrace] := by
    cases hvalue : doc.value with
    | emptyObject space => exact ⟨openBrace :: space.text, rfl⟩
    | object members => exact ⟨openBrace :: members.render, rfl⟩
    | string | number | boolean | null | emptyArray | array =>
        rw [hvalue] at hobject
        cases hobject
  obtain ⟨inner, hinner⟩ := hvalue
  unfold Document.render at hc
  by_cases hafter : doc.after.text = []
  · rw [hafter, List.append_nil, hinner, ← List.append_assoc, List.getLast?_concat] at hc
    exact .inl (Option.some.inj hc).symm
  · rw [List.getLast?_append_of_ne_nil _ hafter] at hc
    exact .inr (doc.after.blank c (List.mem_of_getLast? hc))

/-- **A kind of failing payloads.**  An object with anything but blanks at the end. -/
theorem trailing_accepted {doc : Document} (hobject : doc.value.isObject = true)
    (hread : Readable doc.value) {tail : Bytes} {c : UInt8} (hc : c ≠ closeBrace)
    (hblank : isBlank c = false) :
    ¬ RejectsMalformed (doc.render ++ (tail ++ [c])) := by
  have hmalformed : ¬ IsJsonObject (doc.render ++ (tail ++ [c])) := by
    intro hjson
    rw [← List.append_assoc] at hjson
    rcases getLast_isJsonObject hjson c (by simp) with heq | hspace
    · exact hc heq
    · rw [hblank] at hspace
      cases hspace
  intro hrejects
  have hfalse := (hrejects hmalformed).1 []
  rw [flattenInto_fst, show flattenJsonObjectImpl _ [] = _ from
    flattenJsonObject_document hobject hread (tail ++ [c])] at hfalse
  cases hfalse

/-- `\x7b"a":true\x7dx`. -/
def trailingPayload : Bytes := ascii "\x7b\"a\":true\x7dx"

def flagDocument : Document where
  before := .none
  value := .object (.last (plainKey [97] stringBody_a) .none
    (.boolean true) .none)
  after := .none

/-- The flag is stored, whatever follows. -/
theorem trailing_payload_accepted :
    ¬ RejectsMalformed trailingPayload ∧
      flattenJsonObject trailingPayload = some [(ascii "a", Binary64.ofInt 1)] := by
  have htext : flagDocument.render ++ ([] ++ [120]) = trailingPayload := by decide +kernel
  have hread : Readable flagDocument.value := ⟨by decide, trivial⟩
  have hleaves : namedLeaves flagDocument = [(ascii "a", Binary64.ofInt 1)] := by decide +kernel
  rw [← htext]
  constructor
  · exact trailing_accepted rfl hread (by decide) (by decide)
  · rw [← hleaves]
    exact flattenJsonObject_document rfl hread _

end Nshmqtt
