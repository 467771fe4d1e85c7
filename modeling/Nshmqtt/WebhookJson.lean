import Nshmqtt.JsonOutput
import Nshmqtt.Utf8

/-!
# The webhook envelope

`webhook_json.cpp`: one forwarded message as a JSON object of four fields.  Topic and
payload go through the escaper, which works byte by byte and leaves every byte from
`0x80` on as it stands.

* `webhookFields` : the tokenizer finds the four fields again and un-escaping returns topic
  and payload, whatever their bytes;
* `validJsonText_iff` : the grammar is always met, but the text is UTF-8 only if the
  payload is.
-/

namespace Nshmqtt

open ByteStrings DecimalText JsonGrammar Utf8

/-- Topic and payload are strings, whatever the payload looked like. -/
def buildWebhookJson (topic payload : Bytes) (retained : Bool) (timestampEpochSeconds : Int) :
    Bytes :=
  ascii "\x7b\"topic\":\"" ++ jsonEscape topic ++ ascii "\",\"payload\":\"" ++
    jsonEscape payload ++ ascii "\",\"retain\":" ++ boolText retained ++
    ascii ",\"timestamp\":" ++ integerText timestampEpochSeconds ++ ascii "\x7d"

section Envelope

variable (topic payload : Bytes) (retained : Bool) (timestamp : Int)

/-- The fields in their order, still escaped. -/
def webhookMembers : List (Bytes × Bytes) :=
  [(ascii "topic", quote :: (jsonEscape topic ++ [quote])),
    (ascii "payload", quote :: (jsonEscape payload ++ [quote])),
    (ascii "retain", boolText retained), (ascii "timestamp", integerText timestamp)]

/-- The text of the source is that of an object. -/
theorem buildWebhookJson_eq :
    buildWebhookJson topic payload retained timestamp =
      objectText (webhookMembers topic payload retained timestamp) := by
  simp only [objectText, webhookMembers, buildWebhookJson, List.map_cons, List.map_nil,
    List.intercalate_cons_cons, List.intercalate_singleton, List.append_assoc, List.cons_append]
  rfl

/-- The names and values of the document are legal. -/
theorem webhookMembers_legal :
    ∀ m ∈ webhookMembers topic payload retained timestamp, StringBody m.1 ∧ IsValue m.2 := by
  simp only [webhookMembers, List.forall_mem_cons]
  exact ⟨⟨stringBody_plain rfl, isValue_quoted _⟩, ⟨stringBody_plain rfl, isValue_quoted _⟩,
    ⟨stringBody_plain rfl, isValue_boolText _⟩,
    ⟨stringBody_plain rfl, isValue_integerText _⟩, List.forall_mem_nil _⟩

theorem tokenizeFlatObject_buildWebhookJson :
    tokenizeFlatObject (buildWebhookJson topic payload retained timestamp) =
      some (webhookMembers topic payload retained timestamp) := by
  rw [buildWebhookJson_eq, tokenizeFlatObject_objectText]
  · have hnames : jsonUnescape (ascii "topic") = ascii "topic" ∧
        jsonUnescape (ascii "payload") = ascii "payload" ∧
        jsonUnescape (ascii "retain") = ascii "retain" ∧
        jsonUnescape (ascii "timestamp") = ascii "timestamp" := by decide +kernel
    obtain ⟨htopic, hpayload, hretain, htimestamp⟩ := hnames
    simp only [webhookMembers, List.map_cons, List.map_nil, htopic, hpayload, hretain,
      htimestamp]
  · intro m hm
    obtain ⟨hname, value, hvalue⟩ := webhookMembers_legal topic payload retained timestamp m hm
    exact ⟨loose_of_stringBody hname, hvalue ▸ valueText_render value⟩

/-- Two messages with one envelope have the same topic and payload. -/
theorem buildWebhookJson_inj {topic' payload' : Bytes}
    (h : buildWebhookJson topic' payload' retained timestamp =
      buildWebhookJson topic payload retained timestamp) :
    topic' = topic ∧ payload' = payload := by
  have htokens := congrArg tokenizeFlatObject h
  rw [tokenizeFlatObject_buildWebhookJson, tokenizeFlatObject_buildWebhookJson] at htokens
  simp only [webhookMembers, Option.some.injEq, List.cons.injEq, Prod.mk.injEq, true_and,
    and_true, List.append_cancel_right_eq] at htokens
  have hback : ∀ {a b : Bytes}, jsonEscape a = jsonEscape b → a = b := by
    intro a b hab
    rw [← jsonUnescape_jsonEscape a, hab, jsonUnescape_jsonEscape]
  exact ⟨hback htokens.1, hback htokens.2⟩

/-- **The envelope read back** has exactly its four fields in their order, the contents
of the two strings un-escape to topic and payload, and no other message with the same
flag and timestamp has this envelope. -/
theorem webhookFields :
    ∃ topicText payloadText,
      tokenizeFlatObject (buildWebhookJson topic payload retained timestamp) =
        some [(ascii "topic", quote :: (topicText ++ [quote])),
          (ascii "payload", quote :: (payloadText ++ [quote])),
          (ascii "retain", if retained then ascii "true" else ascii "false"),
          (ascii "timestamp", integerText timestamp)] ∧
      jsonUnescape topicText = topic ∧ jsonUnescape payloadText = payload ∧
      ∀ topic' payload', buildWebhookJson topic' payload' retained timestamp =
        buildWebhookJson topic payload retained timestamp ↔
          topic' = topic ∧ payload' = payload := by
  refine ⟨jsonEscape topic, jsonEscape payload,
    tokenizeFlatObject_buildWebhookJson topic payload retained timestamp,
    jsonUnescape_jsonEscape topic, jsonUnescape_jsonEscape payload, ?_⟩
  intro topic' payload'
  constructor
  · exact buildWebhookJson_inj topic payload retained timestamp
  · intro h
    obtain ⟨rfl, rfl⟩ := h
    rfl

/-- A valid JSON text: the grammar on the bytes, and UTF-8. -/
def ValidJsonText (text : Bytes) : Prop := IsJson text ∧ IsUtf8 text

/-- An ASCII byte has an ASCII escape. -/
theorem escapeByte_ascii (c : UInt8) (hc : c < 0x80) :
    escapeByte c ≠ [] ∧ ∀ d ∈ escapeByte c, d < 0x80 := by
  have hall : c < 0x80 → escapeByte c ≠ [] ∧
      ((escapeByte c).all fun d => decide (d < 0x80)) = true :=
    forall_byte (p := fun c => c < 0x80 → escapeByte c ≠ [] ∧
      ((escapeByte c).all fun d => decide (d < 0x80)) = true) (by decide +kernel) c
  exact ⟨(hall hc).1, ascii_of_all (hall hc).2⟩

theorem escapeByte_high (c : UInt8) : 0x80 ≤ c → escapeByte c = [c] :=
  forall_byte (p := fun c => 0x80 ≤ c → escapeByte c = [c]) (by decide +kernel) c

/-- The escaper neither mends an encoding nor breaks it. -/
theorem isUtf8_jsonEscape_iff (s : Bytes) : IsUtf8 (jsonEscape s) ↔ IsUtf8 s :=
  isUtf8_flatMap_iff escapeByte_ascii escapeByte_high s

theorem isdigit_ascii (c : UInt8) : isdigit c = true → c < 0x80 :=
  forall_byte (p := fun c => isdigit c = true → c < 0x80) (by decide +kernel) c

theorem integerText_ascii (n : Int) : ∀ c ∈ integerText n, c < 0x80 := by
  have hdigits : ∀ c ∈ decimalText n.natAbs, c < 0x80 :=
    fun c hc => isdigit_ascii c (isdigit_of_mem_decimalText hc)
  unfold integerText
  split_ifs
  · rw [List.forall_mem_cons]
    exact ⟨by decide, hdigits⟩
  · exact hdigits

/-- What stands behind the payload. -/
theorem closing_ascii : ∀ c ∈ ascii "\",\"retain\":" ++ (boolText retained ++
    (ascii ",\"timestamp\":" ++ (integerText timestamp ++ ascii "\x7d"))), c < 0x80 := by
  have hflag : ∀ c ∈ boolText retained, c < 0x80 := by
    apply ascii_of_all
    cases retained <;> rfl
  simp only [List.forall_mem_append]
  exact ⟨ascii_of_all rfl, hflag, ascii_of_all rfl, integerText_ascii timestamp,
    ascii_of_all rfl⟩

/-- The envelope is UTF-8 when topic and payload are. -/
theorem isUtf8_buildWebhookJson_iff :
    IsUtf8 (buildWebhookJson topic payload retained timestamp) ↔
      IsUtf8 topic ∧ IsUtf8 payload := by
  have hopening : ∀ c ∈ ascii "\x7b\"topic\":\"", c < 0x80 := ascii_of_all rfl
  have hbetween : ∀ c ∈ ascii "\",\"payload\":\"", c < 0x80 := ascii_of_all rfl
  unfold buildWebhookJson
  simp only [List.append_assoc]
  rw [← List.nil_append (ascii "\x7b\"topic\":\"" ++ _),
    isUtf8_append_ascii hopening (by decide), isUtf8_append_ascii hbetween (by decide),
    ← List.append_nil (ascii "\",\"retain\":" ++ _),
    isUtf8_append_ascii (closing_ascii retained timestamp) (by simp [ascii]),
    isUtf8_jsonEscape_iff, isUtf8_jsonEscape_iff, and_iff_right isUtf8_nil,
    and_iff_left isUtf8_nil]

/-- **Which envelopes are valid JSON.**  With a topic in UTF-8, those whose payload is in
UTF-8 too. -/
theorem validJsonText_iff (htopic : IsUtf8 topic) :
    ValidJsonText (buildWebhookJson topic payload retained timestamp) ↔ IsUtf8 payload := by
  have hjson : IsJson (buildWebhookJson topic payload retained timestamp) := by
    rw [buildWebhookJson_eq]
    exact isJson_objectText (webhookMembers_legal topic payload retained timestamp)
  unfold ValidJsonText
  rw [isUtf8_buildWebhookJson_iff, and_iff_right hjson, and_iff_right htopic]

end Envelope

theorem isUtf8_topic : IsUtf8 (ascii "a/b") := ⟨['a', '/', 'b'], by decide +kernel⟩

/-- A payload of two bytes for one letter is passed on as that letter. -/
theorem validJsonText_iff_letter :
    IsUtf8 (ascii "a/b") ∧
      ValidJsonText (buildWebhookJson (ascii "a/b") [0xc3, 0xa4] true 1700000000) :=
  ⟨isUtf8_topic, (validJsonText_iff _ _ _ _ isUtf8_topic).mpr
    ⟨[Char.ofNat 0xe4], by decide +kernel⟩⟩

/-- The one byte `0xff` is passed on as it came. -/
theorem validJsonText_binary :
    IsUtf8 (ascii "a/b") ∧
      ¬ ValidJsonText (buildWebhookJson (ascii "a/b") [0xff] false 1700000000) := by
  refine ⟨isUtf8_topic, ?_⟩
  intro h
  obtain ⟨-, hutf8⟩ := h
  have hpayload := (isUtf8_buildWebhookJson_iff _ _ _ _).mp hutf8
  exact absurd (hpayload.2.lt List.mem_cons_self) (by decide)

end Nshmqtt
