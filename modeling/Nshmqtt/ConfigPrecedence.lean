import Mathlib.Logic.Relation
import Nshmqtt.ConfigFields

/-!
# The last assignment of a key

A load of a file and of the environment is one run of assignments: the lines with a known
key in their order, and then the variables that are set.

* `loadLines_run`, `overrideKeys_run` : both front ends are runs of assignments;
* `config_precedence` : a variable that is set decides, else the last line of the key, else
  the starting value; edits of the file that keep the last lines change nothing, and each
  unknown key gives one warning.
-/

namespace Nshmqtt

open ByteStrings LastAssignments

/-- What a line assigns, when its key is known. -/
def lineAssignment (line : Bytes) : Option (ConfigKey × Bytes) :=
  match readLine line with
  | .entry key value => (findKey key).map fun known => (known, value)
  | _ => none

/-- The assignments of the lines, in order. -/
def fileAssignments (lines : List Bytes) : List (ConfigKey × Bytes) :=
  lines.filterMap lineAssignment

/-- The assignments of the variables of some keys. -/
def envAssignments (getenv : Bytes → Option Bytes) (keys : List ConfigKey) :
    List (ConfigKey × Bytes) :=
  keys.filterMap fun key => (getenv key.envName).map fun value => (key, value)

/-- The key of a line, when it is unknown. -/
def unknownKey (line : Bytes) : Option Bytes :=
  match readLine line with
  | .entry key _ => if findKey key = none then some key else none
  | _ => none

/-- One warning for each line with an unknown key, in order. -/
def unknownWarnings (path : Bytes) (lineNo : Nat) : List Bytes → List Bytes
  | [] => []
  | line :: rest =>
      ((unknownKey line).map (unknownKeyWarning path (lineNo + 1))).toList ++
        unknownWarnings path (lineNo + 1) rest

/-- The text that decides a key: the variable if it is set, else the last line in the file. -/
def decidingText (getenv : Bytes → Option Bytes) (lines : List Bytes) (key : ConfigKey) :
    Option Bytes :=
  (getenv key.envName).or (lastOf key (fileAssignments lines))

/-- Assignments, read by the rules of their keys. -/
abbrev runKeys (cfg : Config) (assignments : List (ConfigKey × Bytes)) : Option Config :=
  run Config.fields (fun key => key.rule.read) cfg assignments

/-- The head of a list gives at most one element. -/
theorem filterMap_cons_eq {α β : Type} (f : α → Option β) (a : α) (rest : List α) :
    (a :: rest).filterMap f = (f a).toList ++ rest.filterMap f := by
  cases h : f a with
  | none => rw [List.filterMap_cons_none h, Option.toList_none, List.nil_append]
  | some b => rw [List.filterMap_cons_some h, Option.toList_some, List.singleton_append]

theorem fileAssignments_cons (line : Bytes) (rest : List Bytes) :
    fileAssignments (line :: rest) = (lineAssignment line).toList ++ fileAssignments rest :=
  filterMap_cons_eq lineAssignment line rest

/-- A variable assigns at most once. -/
theorem envAssignments_cons (getenv : Bytes → Option Bytes) (key : ConfigKey)
    (rest : List ConfigKey) :
    envAssignments getenv (key :: rest) =
      ((getenv key.envName).map fun value => (key, value)).toList ++ envAssignments getenv rest :=
  filterMap_cons_eq _ key rest

/-- Assignments are made one after the other, up to the first that fails. -/
theorem runKeys_cons (cfg : Config) (key : ConfigKey) (value : Bytes)
    (rest : List (ConfigKey × Bytes)) :
    runKeys cfg ((key, value) :: rest) =
      if (applyKnown cfg value key).ok then runKeys (applyKnown cfg value key).cfg rest
      else none := by
  rw [runKeys, run_cons, assign]
  cases hread : key.rule.read value with
  | none => rw [(applyKnown_of_none hread).1]; rfl
  | some x => rw [applyKnown_of_some hread]; rfl

/-- **The file is a run**: without malformed lines, the loop succeeds exactly when the run
does, with its state, and its warnings are the unknown keys. -/
theorem loadLines_run (path : Bytes) (lineNo : Nat) (cfg : Config) (warnings : Option (List Bytes))
    {lines : List Bytes} (h : ∀ line ∈ lines, readLine line ≠ .malformed) :
    let loaded := loadLines path lineNo cfg warnings lines
    runKeys cfg (fileAssignments lines) = (if loaded.ok then some loaded.cfg else none) ∧
      (loaded.ok = true →
        loaded.warnings = warnings.map (· ++ unknownWarnings path lineNo lines)) := by
  induction lines generalizing lineNo cfg warnings with
  | nil => simp [loadLines, fileAssignments, unknownWarnings]
  | cons line rest ih =>
      rw [List.forall_mem_cons] at h
      obtain ⟨hline, hrest⟩ := h
      rw [loadLines, fileAssignments_cons, unknownWarnings, lineAssignment, unknownKey]
      cases hread : readLine line with
      | blank => simpa using ih (lineNo + 1) cfg warnings hrest
      | malformed => exact absurd hread hline
      | entry key value =>
          cases hkey : findKey key with
          | none =>
              have happlied : applyKey cfg key value = ⟨false, cfg, []⟩ := by rw [applyKey, hkey]
              simp only [happlied, hkey, Bool.false_eq_true, if_false, if_true, Option.map_none,
                Option.toList_none, List.nil_append, Option.map_some, Option.toList_some]
              have hloaded := ih (lineNo + 1) cfg
                (warnings.map (· ++ [unknownKeyWarning path (lineNo + 1) key])) hrest
              rw [Option.map_map] at hloaded
              simpa [Function.comp_def] using hloaded
          | some known =>
              have happlied : applyKey cfg key value = applyKnown cfg value known := by
                rw [applyKey, hkey]
              simp only [happlied, hkey, Option.map_some, Option.toList_some, List.singleton_append,
                runKeys_cons, reduceCtorEq, if_false, Option.map_none, Option.toList_none,
                List.nil_append]
              cases hvalue : known.rule.read value with
              | none =>
                  simp [(applyKnown_of_none hvalue).1, applyKnown_err_ne_nil hvalue]
              | some x =>
                  simp only [applyKnown_of_some hvalue, accept, if_true]
                  exact ih (lineNo + 1) _ warnings hrest

/-- A load that succeeds met no malformed line. -/
theorem not_malformed_of_ok {path : Bytes} {lineNo : Nat} {cfg : Config}
    {warnings : Option (List Bytes)} {lines : List Bytes}
    (h : (loadLines path lineNo cfg warnings lines).ok = true) :
    ∀ line ∈ lines, readLine line ≠ .malformed := by
  induction lines generalizing lineNo cfg warnings with
  | nil => exact List.forall_mem_nil _
  | cons line rest ih =>
      rw [List.forall_mem_cons]
      rw [loadLines] at h
      cases hread : readLine line with
      | blank =>
          rw [hread] at h
          exact ⟨by simp, ih h⟩
      | malformed =>
          rw [hread] at h
          cases h
      | entry key value =>
          rw [hread] at h
          dsimp only at h
          refine ⟨by simp, ?_⟩
          split_ifs at h
          · exact ih h
          · exact ih h

/-- **The environment is a run** over the keys of the table. -/
theorem overrideKeys_run (getenv : Bytes → Option Bytes) (cfg : Config) (keys : List ConfigKey) :
    let applied := overrideKeys getenv cfg (keys.map fun key => (key, key.envName))
    runKeys cfg (envAssignments getenv keys) = if applied.ok then some applied.cfg else none := by
  induction keys generalizing cfg with
  | nil => rfl
  | cons key rest ih =>
      rw [List.map_cons, overrideKeys, envAssignments_cons]
      cases getenv key.envName with
      | none => exact ih cfg
      | some value =>
          simp only [applyKey_name, Option.map_some, Option.toList_some, List.singleton_append,
            runKeys_cons]
          cases hvalue : key.rule.read value with
          | none => simp [(applyKnown_of_none hvalue).1]
          | some x =>
              simp only [applyKnown_of_some hvalue, accept, if_true]
              exact ih _

/-- The variables of all keys. -/
theorem applyEnvOverrides_run (getenv : Bytes → Option Bytes) (cfg : Config) :
    runKeys cfg (envAssignments getenv ConfigKey.all) =
      if (applyEnvOverrides getenv cfg).ok then some (applyEnvOverrides getenv cfg).cfg
      else none := by
  rw [applyEnvOverrides, kEnvKeys_eq]
  exact overrideKeys_run getenv cfg ConfigKey.all

/-- A key has one variable. -/
theorem lastOf_envAssignments (getenv : Bytes → Option Bytes) (key : ConfigKey)
    {keys : List ConfigKey} (hnodup : keys.Nodup) :
    lastOf key (envAssignments getenv keys) = if key ∈ keys then getenv key.envName else none := by
  induction keys with
  | nil => rfl
  | cons first rest ih =>
      rw [List.nodup_cons] at hnodup
      rw [envAssignments_cons, lastOf_append, ih hnodup.2]
      by_cases hkey : first = key
      · subst hkey
        rw [if_neg hnodup.1, if_pos List.mem_cons_self, Option.none_or]
        cases getenv first.envName with
        | none => rfl
        | some value => simp [lastOf]
      · have hmem : key ∈ first :: rest ↔ key ∈ rest := by simp [Ne.symm hkey]
        simp only [hmem]
        cases getenv first.envName with
        | none => rw [Option.map_none, Option.toList_none, lastOf, Option.or_none]
        | some value => simp [lastOf, hkey]

/-- The last assignment to a key comes from the environment if it has one. -/
theorem lastOf_all (getenv : Bytes → Option Bytes) (lines : List Bytes) (key : ConfigKey) :
    lastOf key (fileAssignments lines ++ envAssignments getenv ConfigKey.all) =
      decidingText getenv lines key := by
  rw [lastOf_append, lastOf_envAssignments getenv key ConfigKey.nodup_all, if_pos key.mem_all,
    decidingText]

/-- An edit that keeps the last line of each key: two neighbours with different keys change
places, a line whose key comes again later is put in, or one that assigns nothing. -/
inductive Edit : List Bytes → List Bytes → Prop
  | swap (before after : List Bytes) {a b : Bytes}
      (hkeys : ∀ x ∈ lineAssignment a, ∀ y ∈ lineAssignment b, x.1 ≠ y.1) :
      Edit (before ++ a :: b :: after) (before ++ b :: a :: after)
  | earlier (before after : List Bytes) {line later : Bytes} {key : ConfigKey} {value last : Bytes}
      (hline : lineAssignment line = some (key, value))
      (haccepted : (key.rule.read value).isSome = true)
      (hlater : later ∈ after) (hlast : lineAssignment later = some (key, last)) :
      Edit (before ++ after) (before ++ line :: after)
  | idle (before after : List Bytes) {line : Bytes} (hform : readLine line ≠ .malformed)
      (hnone : lineAssignment line = none) :
      Edit (before ++ after) (before ++ line :: after)

/-- Files that load alike: none or both have lines that are refused, and the last lines are the
same. -/
structure LoadsAlike (lines lines' : List Bytes) : Prop where
  form : (∀ line ∈ lines, readLine line ≠ .malformed) ↔ ∀ line ∈ lines', readLine line ≠ .malformed
  values : (∀ a ∈ fileAssignments lines, (a.1.rule.read a.2).isSome = true) ↔
    ∀ a ∈ fileAssignments lines', (a.1.rule.read a.2).isSome = true
  last : ∀ key, lastOf key (fileAssignments lines) = lastOf key (fileAssignments lines')

theorem LoadsAlike.refl (lines : List Bytes) : LoadsAlike lines lines :=
  ⟨Iff.rfl, Iff.rfl, fun _ => rfl⟩

/-- Loading alike is symmetric. -/
theorem LoadsAlike.symm {lines lines' : List Bytes} (h : LoadsAlike lines lines') :
    LoadsAlike lines' lines :=
  ⟨h.form.symm, h.values.symm, fun key => (h.last key).symm⟩

/-- Loading alike is transitive. -/
theorem LoadsAlike.trans {a b c : List Bytes} (hab : LoadsAlike a b) (hbc : LoadsAlike b c) :
    LoadsAlike a c :=
  ⟨hab.form.trans hbc.form, hab.values.trans hbc.values,
    fun key => (hab.last key).trans (hbc.last key)⟩

/-- The assignments of two parts of a file. -/
theorem fileAssignments_append (before after : List Bytes) :
    fileAssignments (before ++ after) = fileAssignments before ++ fileAssignments after :=
  List.filterMap_append

/-- A line that assigns is well formed. -/
theorem not_malformed_of_assignment {line : Bytes} {a : ConfigKey × Bytes}
    (h : lineAssignment line = some a) : readLine line ≠ .malformed := by
  intro hread
  rw [lineAssignment, hread] at h
  cases h

/-- One edit changes nothing that a load depends on. -/
theorem Edit.loadsAlike {lines lines' : List Bytes} (h : Edit lines lines') :
    LoadsAlike lines lines' := by
  cases h with
  | swap before after hkeys =>
      rename_i a b
      have hperm : (before ++ a :: b :: after).Perm (before ++ b :: a :: after) :=
        (List.Perm.swap b a after).append_left before
      refine ⟨⟨fun h line hline => h line (hperm.mem_iff.mpr hline),
        fun h line hline => h line (hperm.mem_iff.mp hline)⟩, ?_, ?_⟩
      · have hassigned := hperm.filterMap lineAssignment
        exact ⟨fun h x hx => h x (hassigned.mem_iff.mpr hx),
          fun h x hx => h x (hassigned.mem_iff.mp hx)⟩
      · intro key
        simp only [fileAssignments_append, fileAssignments_cons]
        cases hx : lineAssignment a with
        | none => rfl
        | some x =>
            cases hy : lineAssignment b with
            | none => rfl
            | some y => exact lastOf_swap key (hkeys x hx y hy) _ _
  | earlier before after hline haccepted hlater hlast =>
      rename_i line later key value last
      refine ⟨?_, ?_, ?_⟩
      · simp [not_malformed_of_assignment hline, or_imp, forall_and]
      · simp only [fileAssignments_append, fileAssignments_cons, hline, Option.toList_some,
          List.singleton_append, List.forall_mem_append, List.forall_mem_cons, haccepted, true_and]
      · intro key'
        simp only [fileAssignments_append, fileAssignments_cons, hline, Option.toList_some,
          List.singleton_append]
        have hmem : (key, last) ∈ fileAssignments after :=
          List.mem_filterMap.mpr ⟨later, hlater, hlast⟩
        have hkey : (key, last).1 = (key, value).1 := rfl
        exact (lastOf_repeat key' hkey hmem _).symm
  | idle before after hform hnone =>
      refine ⟨?_, ?_, ?_⟩
      · simp [hform, or_imp, forall_and]
      · simp only [fileAssignments_append, fileAssignments_cons, hnone, Option.toList_none,
          List.nil_append]
      · intro key
        simp only [fileAssignments_append, fileAssignments_cons, hnone, Option.toList_none,
          List.nil_append]

/-- Any number of edits, made or undone. -/
theorem loadsAlike_of_eqvGen {lines lines' : List Bytes} (h : Relation.EqvGen Edit lines lines') :
    LoadsAlike lines lines' := by
  induction h with
  | rel a b hedit => exact hedit.loadsAlike
  | refl a => exact LoadsAlike.refl a
  | symm a b _ ih => exact ih.symm
  | trans a b c _ _ ihab ihbc => exact ihab.trans ihbc

/-- A file that is loaded makes its assignments in order. -/
theorem loadConfig_run {path contents : Bytes} {cfg : Config} {warnings : Option (List Bytes)}
    (h : (loadConfig path (some contents) cfg warnings).ok = true) :
    runKeys cfg (fileAssignments (getLines contents)) =
      some (loadConfig path (some contents) cfg warnings).cfg := by
  have hrun := (loadLines_run path 0 cfg warnings (not_malformed_of_ok h)).1
  rw [hrun]
  exact if_pos h

/-- Files that load alike give the same settings, under any path. -/
theorem LoadsAlike.load {contents contents' : Bytes}
    (halike : LoadsAlike (getLines contents) (getLines contents')) {path : Bytes} {cfg : Config}
    {warnings : Option (List Bytes)}
    (h : (loadConfig path (some contents) cfg warnings).ok = true) (path' : Bytes)
    (warnings' : Option (List Bytes)) :
    (loadConfig path' (some contents') cfg warnings').ok = true ∧
      (loadConfig path' (some contents') cfg warnings').cfg =
        (loadConfig path (some contents) cfg warnings).cfg := by
  have hrun := loadConfig_run h
  have hvalues := run_isSome_iff.mp (Option.isSome_of_mem hrun)
  have hrun' := run_eq_of_lastOf hrun (halike.values.mp hvalues) fun key => (halike.last key).symm
  have hload' := (loadLines_run path' 0 cfg warnings'
    (halike.form.mp (not_malformed_of_ok h))).1
  rw [runKeys, hrun'] at hload'
  split_ifs at hload' with hok
  · exact ⟨hok, (Option.some.inj hload').symm⟩

/-- **Precedence.**  The deciding text of a key gives its value, which is otherwise the starting
one; edits that keep the last line of each key change nothing; and there is one warning for each
unknown key. -/
theorem config_precedence {path contents : Bytes} {cfg : Config} {warnings : Option (List Bytes)}
    {getenv : Bytes → Option Bytes}
    (hfile : (loadConfig path (some contents) cfg warnings).ok = true)
    (henv : (applyEnvOverrides getenv (loadConfig path (some contents) cfg warnings).cfg).ok =
      true) :
    let loaded := loadConfig path (some contents) cfg warnings
    let result := (applyEnvOverrides getenv loaded.cfg).cfg
    (∀ key : ConfigKey, some (result.get key) =
        match decidingText getenv (getLines contents) key with
        | some text => key.rule.read text
        | none => some (cfg.get key)) ∧
      (∀ contents' path' warnings',
        Relation.EqvGen Edit (getLines contents) (getLines contents') →
          let loaded' := loadConfig path' (some contents') cfg warnings'
          loaded'.ok = true ∧ (applyEnvOverrides getenv loaded'.cfg).ok = true ∧
            (applyEnvOverrides getenv loaded'.cfg).cfg = result) ∧
      loaded.warnings = warnings.map (· ++ unknownWarnings path 0 (getLines contents)) := by
  dsimp only
  refine ⟨?_, ?_, ?_⟩
  · intro key
    have hrun := loadConfig_run hfile
    have henvRun := applyEnvOverrides_run getenv (loadConfig path (some contents) cfg warnings).cfg
    rw [if_pos henv] at henvRun
    have hall : runKeys cfg
        (fileAssignments (getLines contents) ++ envAssignments getenv ConfigKey.all) =
          some (applyEnvOverrides getenv (loadConfig path (some contents) cfg warnings).cfg).cfg := by
      unfold runKeys at hrun ⊢
      rw [run_append, hrun]
      exact henvRun
    have hread := read_run hall key
    rw [settled, lastOf_all] at hread
    change some (Config.get _ key) = _ at hread
    rw [hread]
    cases decidingText getenv (getLines contents) key with
    | none => rfl
    | some text => rfl
  · intro contents' path' warnings' hedits
    obtain ⟨hok, hcfg⟩ := (loadsAlike_of_eqvGen hedits).load hfile path' warnings'
    rw [hcfg]
    exact ⟨hok, henv, rfl⟩
  · exact (loadLines_run path 0 cfg warnings (not_malformed_of_ok hfile)).2 hfile

/-- A file with a repeated key and an unknown one, and a variable. -/
def sampleContents : Bytes :=
  ascii "mqtt_port=1" ++ newline :: ascii "color=red" ++ newline :: ascii "mqtt_port = 2"

def sampleEnv (name : Bytes) : Option Bytes :=
  if name = ascii "NSHMQTT_MQTT_QOS" then some (ascii "2") else none

/-- The sample file with a warning, and an environment that overrides it. -/
theorem config_precedence_sample :
    let loaded := loadConfig (ascii "f") (some sampleContents) {} (some [])
    let result := (applyEnvOverrides sampleEnv loaded.cfg).cfg
    result.mqttPort = 2 ∧ result.mqttQos = 2 ∧
      loaded.warnings = some [ascii "f:2: unknown config key 'color'"] := by
  have hfile : (loadConfig (ascii "f") (some sampleContents) {} (some [])).ok = true := by
    decide +kernel
  obtain ⟨hkeys, -, hwarnings⟩ := @config_precedence _ _ _ _ sampleEnv hfile (by decide +kernel)
  have hport : decidingText sampleEnv (getLines sampleContents) .mqttPort = some (ascii "2") := by
    decide +kernel
  have hqos : decidingText sampleEnv (getLines sampleContents) .mqttQos = some (ascii "2") := by
    decide +kernel
  have hvalue : Rule.between 10 1 65535 (ascii "2") = some 2 := by decide +kernel
  have hvalue' : Rule.between 10 0 2 (ascii "2") = some 2 := by decide +kernel
  refine ⟨?_, ?_, ?_⟩
  · have h := hkeys .mqttPort
    rw [hport] at h
    exact Option.some.inj (h.trans hvalue)
  · have h := hkeys .mqttQos
    rw [hqos] at h
    exact Option.some.inj (h.trans hvalue')
  · rw [hwarnings]
    decide +kernel

end Nshmqtt
