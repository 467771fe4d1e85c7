import Nshmqtt.ByteStrings

/-!
# Event placeholders

`event_placeholders.cpp`: every occurrence of a known token in an event payload
is replaced by a value generated for it.  The random source and the clock are
outside of the program; `generate token i` is the value that the `i`-th call of
the token's generator returns.
-/

namespace Nshmqtt

open ByteStrings

/-- The loop of `replaceAllWithFreshValues`, at position `pos` after `count`
replacements.  An empty token, which no caller passes, ends it at once. -/
def replaceFrom (token : Bytes) (generate : Nat → Bytes) (text : Bytes) (pos count : Nat) :
    Bytes :=
  if _htoken : token = [] then text
  else
    match _hfound : find text token pos with
    | none => text
    | some k =>
        let value := generate count
        replaceFrom token generate (text.take k ++ value ++ text.drop (k + token.length))
          (k + value.length) (count + 1)
  termination_by text.length - pos
  decreasing_by
    have hbounds := find_length _hfound
    have hlength := List.length_pos_iff.mpr _htoken
    simp only [List.length_append, List.length_take, List.length_drop]
    omega

/-- One turn of the loop. -/
theorem replaceFrom_eq {token : Bytes} (htoken : token ≠ []) (generate : Nat → Bytes)
    (text : Bytes) (pos count : Nat) :
    replaceFrom token generate text pos count =
      match find text token pos with
      | none => text
      | some k =>
          replaceFrom token generate
            (text.take k ++ generate count ++ text.drop (k + token.length))
            (k + (generate count).length) (count + 1) := by
  rw [replaceFrom, dif_neg htoken]
  split <;> rename_i hfound
  · rw [hfound]
  · rw [hfound]

def replaceAllWithFreshValues (text token : Bytes) (generate : Nat → Bytes) : Bytes :=
  replaceFrom token generate text 0 0

/-- The tokens in the order in which they are replaced. -/
def placeholderTokens : List Bytes :=
  [ascii "NSHMQTT_RANDOM_HEX8", ascii "NSHMQTT_RANDOM_HEX16", ascii "NSHMQTT_RANDOM_HEX32",
    ascii "NSHMQTT_RANDOM_HEX64", ascii "NSHMQTT_RANDOM_UUID", ascii "NSHMQTT_TIMESTAMP_S",
    ascii "NSHMQTT_TIMESTAMP_MS", ascii "NSHMQTT_TIMESTAMP_US", ascii "NSHMQTT_TIMESTAMP_NS",
    ascii "NSHMQTT_DATETIME_UTC", ascii "NSHMQTT_DATE_UTC", ascii "NSHMQTT_TIME_UTC"]

def substituteEventPlaceholders (generate : Bytes → Nat → Bytes) (payload : Bytes) : Bytes :=
  placeholderTokens.foldl
    (fun text token => replaceAllWithFreshValues text token (generate token)) payload

end Nshmqtt
