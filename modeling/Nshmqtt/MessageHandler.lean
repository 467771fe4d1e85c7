import Nshmqtt.Config
import Nshmqtt.MqttTopic
import Nshmqtt.StateRoundTrip

/-!
# The handler of arrived messages

The message handler of `main.cpp`.  A message on a subscribed topic becomes
calls on the store: the leaves of a JSON object on a listed topic, the number
itself on any other.  Independently of that it may be handed to the webhook.
-/

namespace Nshmqtt

open ByteStrings DecimalText

/-- A message as the subscribe worker hands it over. -/
structure IncomingMessage where
  topic : Bytes
  payload : Bytes
  retained : Bool
  deriving DecidableEq

/-- The `set` calls a message leads to, in order; `none` when it is ignored and
nothing is saved. -/
def messageUpdates (cfg : Config) (topic payload : Bytes) : Option (List (Bytes × Double)) :=
  if cfg.subscribeEnabled && topicMatchesAny topic cfg.subscribeTopics then
    if topic ∈ cfg.prometheusMqttJsonTopics then
      (flattenJsonObject payload).map fun leaves =>
        leaves.map fun leaf => (topic ++ ascii "/" ++ leaf.1, leaf.2)
    else (parseDouble payload).map fun value => [(topic, value)]
  else none

/-- What the handler does to the store and to its two consumers. -/
structure Handled where
  store : StateStore
  saved : Bool
  webhook : Option IncomingMessage

def messageHandler (cfg : Config) (store : StateStore) (msg : IncomingMessage) : Handled where
  store := ((messageUpdates cfg msg.topic msg.payload).getD []).foldl
    (fun store leaf => store.set leaf.1 leaf.2) store
  saved := (messageUpdates cfg msg.topic msg.payload).isSome && cfg.stateEnabled
  webhook :=
    if cfg.webhookEnabled && topicMatchesAny msg.topic cfg.webhookTopics then some msg else none

/-- The names a message would store. -/
def messageNames (cfg : Config) (msg : IncomingMessage) : List Bytes :=
  ((messageUpdates cfg msg.topic msg.payload).getD []).map Prod.fst

/-- Setting entries adds their names and drops none. -/
theorem mem_keys_foldl_set (leaves : List (Bytes × Double)) (store : StateStore)
    (name : Bytes) :
    name ∈ (leaves.foldl (fun store leaf => StateStore.set store leaf.1 leaf.2) store).keys ↔
      name ∈ leaves.map Prod.fst ∨ name ∈ store.keys := by
  induction leaves generalizing store with
  | nil => simp
  | cons leaf leaves ih =>
      have hset : name ∈ (store.set leaf.1 leaf.2).keys ↔ name = leaf.1 ∨ name ∈ store.keys := by
        rw [SortedMap.mem_keys_iff, SortedMap.mem_keys_iff, StateStore.set,
          SortedMap.lookup_insert]
        split_ifs with h <;> simp [h]
      rw [List.foldl_cons, ih, hset, List.map_cons, List.mem_cons]
      tauto

/-- **The names after a message** are those of the store and of the message. -/
theorem mem_keys_messageHandler (cfg : Config) (store : StateStore) (msg : IncomingMessage)
    (name : Bytes) :
    name ∈ (messageHandler cfg store msg).store.keys ↔
      name ∈ messageNames cfg msg ∨ name ∈ store.keys :=
  mem_keys_foldl_set _ store name

/-- A formatted value is no JSON object. -/
theorem flattenJsonObject_formatDouble (v : Double) :
    flattenJsonObject (formatDouble v) = none := by
  obtain ⟨c, rest, htext, hspace, -, hbrace, -⟩ := formatDouble_cons v
  apply flattenJsonObject_eq_none
  rw [htext, tokenizeFlatObject, skipWs_cons _ hspace]
  simp [expect, hbrace]

/-- A formatted value stores at most its own topic. -/
theorem messageNames_formatDouble (cfg : Config) (topic : Bytes) (v : Double)
    (retained : Bool) : ∀ name ∈ messageNames cfg ⟨topic, formatDouble v, retained⟩,
      name = topic := by
  intro name hname
  unfold messageNames messageUpdates at hname
  simp only [flattenJsonObject_formatDouble] at hname
  split_ifs at hname
  · simp at hname
  · cases hparse : parseDouble (formatDouble v) with
    | none => simp [hparse] at hname
    | some w => simpa [hparse] using hname
  · simp at hname

/-- The empty payload stores nothing. -/
theorem messageNames_empty (cfg : Config) (topic : Bytes) (retained : Bool) :
    messageNames cfg ⟨topic, [], retained⟩ = [] := by
  have hflatten : flattenJsonObject [] = none := by decide +kernel
  have hparse : parseDouble [] = none := by decide +kernel
  unfold messageNames messageUpdates
  simp only [hflatten, hparse]
  split_ifs <;> rfl

end Nshmqtt
