import Nshmqtt.MqttTopic

/-!
# Topic filters match as MQTT 3.1.1 says

The reference is a relation on the levels of a topic and of a filter, with one
rule for each form that a filter level can take.  `matchLevels` walks over both
lists with two cursors; on a topic without wildcards it decides exactly that
relation, also for a filter that MQTT does not allow: such a filter is in the
relation with no topic.

* `matchLevels_iff` is the walk against the relation, for any levels;
* `topicMatchesFilter_mqtt` puts the rule about `$` topics on top of it.
-/

namespace Nshmqtt

open ByteStrings

/-- `#`. -/
abbrev numberSign : UInt8 := 35

/-- `$`. -/
abbrev dollar : UInt8 := 36

/-- The wildcard bytes. -/
def IsWildcard (c : UInt8) : Prop := c = plus ∨ c = numberSign

/-- The levels of a topic match the levels of a filter. -/
inductive LevelsMatch : List Bytes → List Bytes → Prop
  /-- Both are used up. -/
  | done : LevelsMatch [] []
  /-- `#` as the last level takes what is left; with nothing left, the levels
  before it named the parent. -/
  | multi (rest : List Bytes) : LevelsMatch rest [ascii "#"]
  /-- `+` takes exactly one level, which may be empty. -/
  | single (level : Bytes) {topicLevels filterLevels : List Bytes}
      (rest : LevelsMatch topicLevels filterLevels) :
      LevelsMatch (level :: topicLevels) (ascii "+" :: filterLevels)
  /-- Any other level takes the same level. -/
  | literal {level : Bytes} (plain : ∀ c ∈ level, ¬ IsWildcard c)
      {topicLevels filterLevels : List Bytes} (rest : LevelsMatch topicLevels filterLevels) :
      LevelsMatch (level :: topicLevels) (level :: filterLevels)

/-- The matching rule of MQTT: by levels, but a `$` topic is hidden from a
filter that starts with a wildcard. -/
def MqttMatches (topic filter : Bytes) : Prop :=
  LevelsMatch (splitLevels topic) (splitLevels filter) ∧
    ¬ (topic.head? = some dollar ∧ ∃ c, filter.head? = some c ∧ IsWildcard c)

/-- A topic that a message can be published to. -/
structure ConcreteTopic (topic : Bytes) : Prop where
  nonempty : topic ≠ []
  plain : ∀ c ∈ topic, ¬ IsWildcard c

/-- The wildcards of a filter stand where MQTT allows them. -/
structure WellFormedLevels (filterLevels : List Bytes) : Prop where
  plus_alone : ∀ level ∈ filterLevels, plus ∈ level → level = ascii "+"
  multi_alone : ∀ level ∈ filterLevels, numberSign ∈ level → level = ascii "#"
  multi_last : ∀ level ∈ filterLevels.dropLast, numberSign ∉ level

/-- The filters that MQTT allows. -/
structure WellFormedFilter (filter : Bytes) : Prop where
  nonempty : filter ≠ []
  levels : WellFormedLevels (splitLevels filter)

/-- A level has no slash, and its bytes are bytes of the whole. -/
theorem of_mem_splitLevels {s level : Bytes} (hlevel : level ∈ splitLevels s) :
    slash ∉ level ∧ ∀ c ∈ level, c ∈ s :=
  of_mem_splitOn hlevel

/-- The levels are the slash-free pieces that the slashes join to the whole. -/
theorem splitLevels_eq_iff {s : Bytes} {levels : List Bytes} :
    splitLevels s = levels ↔
      levels ≠ [] ∧ (∀ level ∈ levels, slash ∉ level) ∧ [slash].intercalate levels = s := by
  constructor
  · intro heq
    subst heq
    exact ⟨List.splitOn_ne_nil _ _, fun level hlevel => (of_mem_splitLevels hlevel).1,
      List.intercalate_splitOn slash⟩
  · intro h
    obtain ⟨hne, hplain, rfl⟩ := h
    exact List.splitOn_intercalate slash hplain hne

/-- A string that does not start with a slash starts as its first level does. -/
theorem head?_splitLevels {c : UInt8} {s : Bytes} (hc : c ≠ slash) :
    ∃ level rest, splitLevels (c :: s) = (c :: level) :: rest := by
  unfold splitLevels
  rw [List.splitOn_cons_eq_if_modifyHead, if_neg (by simpa using hc)]
  cases hlevels : s.splitOn slash with
  | nil => exact absurd hlevels (List.splitOn_ne_nil _ _)
  | cons first rest => exact ⟨first, rest, rfl⟩

/-- A level in front of well-formed ones. -/
theorem WellFormedLevels.cons {flevel : Bytes} {filterLevels : List Bytes}
    (hplus : plus ∈ flevel → flevel = ascii "+") (hsign : numberSign ∉ flevel)
    (h : WellFormedLevels filterLevels) : WellFormedLevels (flevel :: filterLevels) where
  plus_alone level hlevel hmem := by
    rcases List.mem_cons.mp hlevel with rfl | hlevel
    · exact hplus hmem
    · exact h.plus_alone level hlevel hmem
  multi_alone level hlevel hmem := by
    rcases List.mem_cons.mp hlevel with rfl | hlevel
    · exact absurd hmem hsign
    · exact h.multi_alone level hlevel hmem
  multi_last level hlevel := by
    cases filterLevels with
    | nil => cases hlevel
    | cons next rest =>
        rcases List.mem_cons.mp hlevel with rfl | hlevel
        · exact hsign
        · exact h.multi_last level hlevel

/-- Only filters that MQTT allows are in the relation. -/
theorem LevelsMatch.wellFormed {topicLevels filterLevels : List Bytes}
    (h : LevelsMatch topicLevels filterLevels) : WellFormedLevels filterLevels := by
  induction h with
  | done => exact ⟨nofun, nofun, nofun⟩
  | multi rest =>
      refine ⟨?_, fun level hlevel _ => List.mem_singleton.mp hlevel, nofun⟩
      intro level hlevel hplus
      rw [List.mem_singleton.mp hlevel] at hplus
      exact absurd hplus (by decide)
  | single level rest ih => exact ih.cons (fun _ => rfl) (by decide)
  | literal plain rest ih =>
      exact ih.cons (fun hplus => absurd (.inl rfl) (plain _ hplus))
        fun hsign => plain _ hsign (.inr rfl)

/-- `#` matches what is left, if it is the last level. -/
theorem matchLevels_multi (topicLevels filterLevels : List Bytes) :
    matchLevels topicLevels (ascii "#" :: filterLevels) = filterLevels.isEmpty := by
  cases topicLevels <;> simp [matchLevels]

/-- Another level needs one of the topic. -/
theorem matchLevels_nil_cons {flevel : Bytes} (hmulti : flevel ≠ ascii "#")
    (filterLevels : List Bytes) : matchLevels [] (flevel :: filterLevels) = false := by
  simp [matchLevels, hmulti]

/-- A level matches itself, and `+` matches any. -/
theorem matchLevels_cons_cons {flevel : Bytes} (hmulti : flevel ≠ ascii "#") (tlevel : Bytes)
    (topicLevels filterLevels : List Bytes) :
    matchLevels (tlevel :: topicLevels) (flevel :: filterLevels) =
      if flevel ≠ ascii "+" ∧ flevel ≠ tlevel then false
      else matchLevels topicLevels filterLevels := by
  rw [matchLevels, if_neg hmulti]

/-- **The walk decides the relation** on topic levels without wildcards. -/
theorem matchLevels_iff {topicLevels : List Bytes}
    (hplain : ∀ level ∈ topicLevels, ∀ c ∈ level, ¬ IsWildcard c) (filterLevels : List Bytes) :
    matchLevels topicLevels filterLevels = true ↔ LevelsMatch topicLevels filterLevels := by
  induction filterLevels generalizing topicLevels with
  | nil =>
      cases topicLevels with
      | nil => exact ⟨fun _ => .done, fun _ => rfl⟩
      | cons tlevel topicLevels => exact ⟨nofun, nofun⟩
  | cons flevel filterLevels ih =>
      by_cases hmulti : flevel = ascii "#"
      · subst hmulti
        rw [matchLevels_multi, List.isEmpty_iff]
        constructor
        · intro heq
          subst heq
          exact .multi topicLevels
        · intro h
          cases h with
          | multi => rfl
          | literal plain => exact absurd (.inr rfl) (plain numberSign (by decide))
      · cases topicLevels with
        | nil =>
            rw [matchLevels_nil_cons hmulti]
            refine ⟨nofun, fun h => ?_⟩
            cases h
            exact absurd rfl hmulti
        | cons tlevel topicLevels =>
            have hrest := ih fun level hlevel => hplain level (List.mem_cons_of_mem _ hlevel)
            rw [matchLevels_cons_cons hmulti]
            split_ifs with hdiffer
            · refine ⟨nofun, fun h => ?_⟩
              cases h with
              | multi => exact absurd rfl hmulti
              | single => exact absurd rfl hdiffer.1
              | literal => exact absurd rfl hdiffer.2
            · rw [hrest]
              constructor
              · intro h
                by_cases hsingle : flevel = ascii "+"
                · rw [hsingle]
                  exact .single tlevel h
                · have hsame : flevel = tlevel := by
                    by_contra hne
                    exact hdiffer ⟨hsingle, hne⟩
                  rw [hsame]
                  exact .literal (hplain tlevel List.mem_cons_self) h
              · intro h
                cases h with
                | multi => exact absurd rfl hmulti
                | single _ rest => exact rest
                | literal _ rest => exact rest

/-- `#` in front of other levels stops the walk, whatever the topic. -/
theorem matchLevels_multi_inside {filterLevels : List Bytes}
    (h : ascii "#" ∈ filterLevels.dropLast) (topicLevels : List Bytes) :
    matchLevels topicLevels filterLevels = false := by
  induction filterLevels generalizing topicLevels with
  | nil => cases h
  | cons flevel filterLevels ih =>
      have hne : filterLevels ≠ [] := by
        intro heq
        subst heq
        cases h
      by_cases hmulti : flevel = ascii "#"
      · rw [hmulti, matchLevels_multi, List.isEmpty_eq_false_iff]
        exact hne
      · have hinside : ascii "#" ∈ filterLevels.dropLast := by
          rw [List.dropLast_cons_of_ne_nil hne] at h
          exact (List.mem_cons.mp h).resolve_left (Ne.symm hmulti)
        cases topicLevels with
        | nil => exact matchLevels_nil_cons hmulti filterLevels
        | cons tlevel topicLevels =>
            rw [matchLevels_cons_cons hmulti]
            split_ifs
            · rfl
            · exact ih hinside topicLevels

/-- A filter that MQTT allows starts with a wildcard exactly when that wildcard
is its whole first level. -/
theorem WellFormedFilter.leading_wildcard {filter : Bytes} (hfilter : WellFormedFilter filter) :
    ((splitLevels filter).head? = some (ascii "+") ∨
        (splitLevels filter).head? = some (ascii "#")) ↔
      ∃ c, filter.head? = some c ∧ IsWildcard c := by
  cases filter with
  | nil => exact absurd rfl hfilter.nonempty
  | cons c filter =>
      by_cases hslash : c = slash
      · have hlevels : splitLevels (c :: filter) = [] :: splitLevels filter := by
          rw [splitLevels, List.splitOn_cons_eq_if_modifyHead, if_pos (by simpa using hslash)]
          rfl
        rw [hlevels]
        constructor
        · rintro (h | h) <;> cases Option.some.inj h
        · intro h
          obtain ⟨d, hd, hwild⟩ := h
          cases Option.some.inj hd
          subst hslash
          rcases hwild with h | h <;> exact absurd h (by decide)
      · obtain ⟨level, rest, hlevels⟩ := head?_splitLevels (s := filter) hslash
        have hfirst : c :: level ∈ splitLevels (c :: filter) := by
          rw [hlevels]
          exact List.mem_cons_self
        rw [hlevels]
        constructor
        · intro h
          rcases h with h | h
          · exact ⟨c, rfl, .inl (List.cons.inj (Option.some.inj h)).1⟩
          · exact ⟨c, rfl, .inr (List.cons.inj (Option.some.inj h)).1⟩
        · intro h
          obtain ⟨d, hd, hwild⟩ := h
          cases Option.some.inj hd
          rcases hwild with rfl | rfl
          · exact .inl (congrArg some (hfilter.levels.plus_alone _ hfirst List.mem_cons_self))
          · exact .inr (congrArg some (hfilter.levels.multi_alone _ hfirst List.mem_cons_self))

/-- The levels of a topic without wildcards have none either. -/
theorem ConcreteTopic.level_plain {topic : Bytes} (htopic : ConcreteTopic topic) :
    ∀ level ∈ splitLevels topic, ∀ c ∈ level, ¬ IsWildcard c :=
  fun _ hlevel c hc => htopic.plain c ((of_mem_splitLevels hlevel).2 c hc)

/-- A filter that MQTT allows matches as MQTT says. -/
theorem topicMatchesFilter_iff {topic filter : Bytes} (htopic : ConcreteTopic topic)
    (hfilter : WellFormedFilter filter) :
    topicMatchesFilter topic filter = true ↔ MqttMatches topic filter := by
  unfold topicMatchesFilter MqttMatches
  rw [if_neg (by simp [htopic.nonempty, hfilter.nonempty]), ← hfilter.leading_wildcard,
    ← matchLevels_iff htopic.level_plain]
  simp only
  split_ifs with hhidden
  · exact ⟨nofun, fun h => absurd hhidden h.2⟩
  · exact ⟨fun h => ⟨h, hhidden⟩, fun h => h.1⟩

/-- A filter that MQTT does not allow matches no topic. -/
theorem topicMatchesFilter_of_not_wellFormed {topic filter : Bytes}
    (htopic : ConcreteTopic topic) (hfilter : ¬ WellFormedFilter filter) :
    topicMatchesFilter topic filter = false := by
  unfold topicMatchesFilter
  split_ifs with hempty
  · rfl
  · simp only
    split_ifs
    · rfl
    · rw [← Bool.not_eq_true, matchLevels_iff htopic.level_plain]
      intro h
      exact hfilter ⟨fun h => hempty (.inl h), h.wellFormed⟩

/-- `#` before the last level: no match, also for a text that is no topic. -/
theorem topicMatchesFilter_multi_inside (topic : Bytes) {filter : Bytes}
    (h : ascii "#" ∈ (splitLevels filter).dropLast) :
    topicMatchesFilter topic filter = false := by
  unfold topicMatchesFilter
  split_ifs
  · rfl
  · simp only
    split_ifs
    · rfl
    · exact matchLevels_multi_inside h _

/-- A list of filters matches when one of them does. -/
theorem topicMatchesAny_iff {topic : Bytes} {filters : List Bytes} :
    topicMatchesAny topic filters = true ↔
      ∃ filter ∈ filters, topicMatchesFilter topic filter = true := by
  unfold topicMatchesAny
  exact List.any_eq_true

/-- **Filters match as in MQTT 3.1.1.**  On a topic without wildcards: a filter
that MQTT allows matches exactly by the relation, any other filter never, and a
list when one of its filters does.  With `#` before the last level nothing
matches at all. -/
theorem topicMatches_mqtt {topic : Bytes} (htopic : ConcreteTopic topic) :
    (∀ filter, WellFormedFilter filter →
        (topicMatchesFilter topic filter = true ↔ MqttMatches topic filter)) ∧
      (∀ filter, ¬ WellFormedFilter filter → topicMatchesFilter topic filter = false) ∧
      (∀ filters, topicMatchesAny topic filters = true ↔
        ∃ filter ∈ filters, WellFormedFilter filter ∧ MqttMatches topic filter) ∧
      ∀ anyTopic filter, ascii "#" ∈ (splitLevels filter).dropLast →
        topicMatchesFilter anyTopic filter = false := by
  refine ⟨fun filter hfilter => topicMatchesFilter_iff htopic hfilter,
    fun filter hfilter => topicMatchesFilter_of_not_wellFormed htopic hfilter, ?_,
    fun anyTopic filter h => topicMatchesFilter_multi_inside anyTopic h⟩
  intro filters
  rw [topicMatchesAny_iff]
  constructor
  · intro h
    obtain ⟨filter, hmem, hmatch⟩ := h
    by_cases hfilter : WellFormedFilter filter
    · exact ⟨filter, hmem, hfilter, (topicMatchesFilter_iff htopic hfilter).mp hmatch⟩
    · rw [topicMatchesFilter_of_not_wellFormed htopic hfilter] at hmatch
      cases hmatch
  · intro h
    obtain ⟨filter, hmem, hfilter, hmatch⟩ := h
    exact ⟨filter, hmem, (topicMatchesFilter_iff htopic hfilter).mpr hmatch⟩

/-- A topic, with a filter that is not well formed and one that matches. -/
theorem topicMatches_mqtt_status :
    ConcreteTopic (ascii "home/status") ∧
      (topicMatchesAny (ascii "home/status") [ascii "home/#/x", ascii "home/+"] = true ↔
        ∃ filter ∈ [ascii "home/#/x", ascii "home/+"],
          WellFormedFilter filter ∧ MqttMatches (ascii "home/status") filter) := by
  have htopic : ConcreteTopic (ascii "home/status") := by
    refine ⟨nofun, fun c hc hwild => ?_⟩
    rcases hwild with rfl | rfl <;> exact absurd hc (by decide)
  exact ⟨htopic, (topicMatches_mqtt htopic).2.2.1 _⟩

end Nshmqtt
