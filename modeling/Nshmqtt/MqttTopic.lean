import Nshmqtt.ByteStrings

/-!
# Topic filters

`mqtt_topic.cpp`: matching a concrete topic against a subscription filter,
level by level.
-/

namespace Nshmqtt

open ByteStrings

/-- The levels of a topic or a filter; empty levels count. -/
def splitLevels (s : Bytes) : List Bytes := s.splitOn slash

/-- The loop over the levels: `#` matches what is left, `+` one level. -/
def matchLevels : List Bytes → List Bytes → Bool
  | topicLevels, [] => topicLevels.isEmpty
  | topicLevels, flevel :: filterLevels =>
      if flevel = ascii "#" then filterLevels.isEmpty
      else
        match topicLevels with
        | [] => false
        | tlevel :: rest =>
            if flevel ≠ ascii "+" ∧ flevel ≠ tlevel then false
            else matchLevels rest filterLevels

def topicMatchesFilter (topic filter : Bytes) : Bool :=
  if filter = [] ∨ topic = [] then false
  else
    let filterLevels := splitLevels filter
    -- a `$` topic is out of reach of a leading wildcard
    if topic.head? = some 36 ∧
        (filterLevels.head? = some (ascii "+") ∨ filterLevels.head? = some (ascii "#")) then
      false
    else matchLevels (splitLevels topic) filterLevels

def topicMatchesAny (topic : Bytes) (filters : List Bytes) : Bool :=
  filters.any (topicMatchesFilter topic)

end Nshmqtt
