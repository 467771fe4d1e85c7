import Nshmqtt.ConfigPrecedence
import Nshmqtt.NumberGrammar

/-!
# One value through the file and through the environment

`load_config` trims a value and `apply_env_overrides` does not.  For the keys that hold true
or false or a list this makes no difference, because their parsers trim again.  A text keeps
its whitespace only when it comes from the environment, and a number with whitespace behind
it is accepted only from the file.

* `loadConfig_line`, `applyEnv_only` : what the two front ends read;
* `read_trim_iff` : when a rule reads the same from a text and from the trimmed text;
* `agree_iff` : when the two front ends agree.
-/

namespace Nshmqtt

open ByteStrings DecimalText LastAssignments

/-- The bytes that the name of a key is made of. -/
def nameByte (c : UInt8) : Bool := (97 ≤ c && c ≤ 122) || c == 95

/-- The names of the keys are made of lower-case letters, digits and underscores. -/
theorem nameByte_of_mem {key : ConfigKey} {c : UInt8} (hc : c ∈ key.name) : nameByte c = true := by
  have hall : (ConfigKey.all.all fun key => key.name.all nameByte) = true := by decide +kernel
  exact List.all_eq_true.mp (List.all_eq_true.mp hall key key.mem_all) c hc

theorem name_ne_nil (key : ConfigKey) : key.name ≠ [] := by
  cases key <;> decide

/-- A byte of a name is not trimmed, does not end the name, and survives the upper case of the
environment. -/
theorem nameByte_plain (c : UInt8) : nameByte c = true →
    isspace c = false ∧ c ≠ equals ∧ c ≠ newline ∧ c ≠ hash ∧ tolower (toupper c) = c :=
  forall_byte (p := fun c => nameByte c = true →
      isspace c = false ∧ c ≠ equals ∧ c ≠ newline ∧ c ≠ hash ∧ tolower (toupper c) = c)
    (by decide +kernel) c

theorem trimmed_name (key : ConfigKey) : Trimmed isspace key.name :=
  ⟨fun c hc => (nameByte_plain c (nameByte_of_mem (List.mem_of_mem_head? hc))).1,
    fun c hc => (nameByte_plain c (nameByte_of_mem (List.mem_of_mem_getLast? hc))).1⟩

/-- Two keys do not share a variable. -/
theorem envName_inj {a b : ConfigKey} (h : a.envName = b.envName) : a = b := by
  have hlower : ∀ key : ConfigKey, (key.name.map toupper).map tolower = key.name := by
    intro key
    rw [List.map_map]
    conv_rhs => rw [← List.map_id key.name]
    apply List.map_congr_left
    intro c hc
    exact (nameByte_plain c (nameByte_of_mem hc)).2.2.2.2
  have hname : a.name = b.name := by
    rw [← hlower a, ← hlower b, List.append_cancel_left h]
  have hfound := findKey_name a
  rw [hname, findKey_name b] at hfound
  exact (Option.some.inj hfound).symm

/-- The environment in which only the variable of one key is set. -/
def onlyVariable (key : ConfigKey) (value : Bytes) (name : Bytes) : Option Bytes :=
  if name = key.envName then some value else none

/-- The line `key=v`. -/
def keyLine (key : ConfigKey) (value : Bytes) : Bytes := key.name ++ equals :: value

/-- Nothing in front of a byte that stays is dropped. -/
theorem rdropWhile_append_cons {p : UInt8 → Bool} {c : UInt8} (hc : p c = false) (a s : Bytes) :
    (a ++ c :: s).rdropWhile p = a ++ c :: s.rdropWhile p := by
  induction s using List.reverseRecOn with
  | nil => exact List.rdropWhile_concat_neg p a c (by simp [hc])
  | append_singleton s d ih =>
      have hassoc : a ++ c :: (s ++ [d]) = (a ++ c :: s) ++ [d] := by simp
      rw [hassoc, List.rdropWhile_concat, List.rdropWhile_concat]
      by_cases hd : p d = true
      · rw [if_pos hd, if_pos hd, ih]
      · rw [if_neg hd, if_neg hd, hassoc]

/-- The line of a key assigns it the trimmed value. -/
theorem readLine_keyLine (key : ConfigKey) (value : Bytes) :
    readLine (keyLine key value) = .entry key.name (trim value) := by
  obtain ⟨first, rest, hname⟩ := List.exists_cons_of_ne_nil (name_ne_nil key)
  have hfirst := nameByte_plain first (nameByte_of_mem (by rw [hname]; exact List.mem_cons_self))
  have htrim : trim (keyLine key value) = key.name ++ equals :: value.rdropWhile isspace := by
    rw [trim, trimBoth, keyLine, hname, List.cons_append,
      List.dropWhile_cons_of_neg (by simp [hfirst.1]), ← List.cons_append, ← hname]
    exact rdropWhile_append_cons rfl _ _
  have hfind : find (key.name ++ equals :: value.rdropWhile isspace) [equals] 0 =
      some key.name.length := by
    apply find_append rfl
    · intro hmem
      exact (nameByte_plain _ (nameByte_of_mem hmem)).2.1 rfl
    · exact ⟨_, rfl⟩
  have hvalue : trim (value.rdropWhile isspace) = trim value := by
    have hparts : value.rdropWhile isspace ++ value.rtakeWhile isspace = value :=
      List.rdropWhile_append_rtakeWhile
    have hright : ∀ c ∈ value.rtakeWhile isspace, isspace c = true :=
      fun c hc => List.mem_rtakeWhile_imp hc
    have hkeep := trimBoth_append (List.forall_mem_nil _) hright (value.rdropWhile isspace)
    rw [List.nil_append, hparts] at hkeep
    exact hkeep.symm
  have hstart : ¬(key.name ++ equals :: value.rdropWhile isspace = [] ∨
      (key.name ++ equals :: value.rdropWhile isspace).head? = some hash) := by
    rw [hname]
    simp [hfirst.2.2.2.1]
  rw [readLine, htrim, if_neg hstart, hfind]
  simp only [substr_left, drop_separator, hvalue]
  rw [trim, trimBoth_of_trimmed (trimmed_name key)]

/-- A file of one line. -/
theorem getLines_single {line : Bytes} (h : newline ∉ line) :
    getLines (line ++ [newline]) = [line] := by
  have hpieces : (line ++ [newline]).splitOn newline = [line, []] :=
    List.splitOn_append_cons_self_of_not_mem h []
  rw [getLines, hpieces]
  rfl

/-- The line of a key and a value without a newline is one line. -/
theorem newline_not_mem_keyLine {key : ConfigKey} {value : Bytes} (h : newline ∉ value) :
    newline ∉ keyLine key value := by
  rw [keyLine, List.mem_append, List.mem_cons]
  intro hmem
  rcases hmem with hname | hequals | hvalue
  · exact (nameByte_plain _ (nameByte_of_mem hname)).2.2.1 rfl
  · exact absurd hequals (by decide)
  · exact h hvalue

/-- What is left of a call, for a comparison: the settings, when it succeeded. -/
def outcome (ok : Bool) (cfg : Config) : Option Config := if ok then some cfg else none

/-- **The file** reads the trimmed value. -/
theorem loadConfig_line (path : Bytes) (key : ConfigKey) {value : Bytes} (h : newline ∉ value)
    (cfg : Config) (warnings : Option (List Bytes)) :
    let loaded := loadConfig path (some (keyLine key value ++ [newline])) cfg warnings
    outcome loaded.ok loaded.cfg = (key.rule.read (trim value)).map (cfg.set key) := by
  have hlines := getLines_single (@newline_not_mem_keyLine key value h)
  have hform : ∀ line ∈ [keyLine key value], readLine line ≠ .malformed := by
    rw [List.forall_mem_singleton, readLine_keyLine]
    simp
  have hassigned : fileAssignments [keyLine key value] = [(key, trim value)] := by
    simp [fileAssignments, lineAssignment, readLine_keyLine, findKey_name]
  have hrun := (loadLines_run path 0 cfg warnings hform).1
  rw [hassigned] at hrun
  dsimp only
  rw [outcome, loadConfig, hlines, ← hrun]
  exact bind_pure _

/-- An environment with one variable assigns to one key. -/
theorem envAssignments_only {key : ConfigKey} (value : Bytes) {keys : List ConfigKey}
    (hnodup : keys.Nodup) :
    envAssignments (onlyVariable key value) keys = if key ∈ keys then [(key, value)] else [] := by
  induction keys with
  | nil => rfl
  | cons first rest ih =>
      rw [List.nodup_cons] at hnodup
      rw [envAssignments_cons, ih hnodup.2, onlyVariable]
      by_cases hkey : first = key
      · subst hkey
        rw [if_pos rfl, if_neg hnodup.1, if_pos List.mem_cons_self]
        rfl
      · have hname : first.envName ≠ key.envName := fun h => hkey (envName_inj h)
        have hmem : key ∈ first :: rest ↔ key ∈ rest := by simp [Ne.symm hkey]
        simp only [hmem, if_neg hname]
        rfl

/-- **The environment** reads the value as it is. -/
theorem applyEnv_only (key : ConfigKey) (value : Bytes) (cfg : Config) :
    let applied := applyEnvOverrides (onlyVariable key value) cfg
    outcome applied.ok applied.cfg = (key.rule.read value).map (cfg.set key) := by
  have hrun := applyEnvOverrides_run (onlyVariable key value) cfg
  rw [envAssignments_only value ConfigKey.nodup_all, if_pos key.mem_all] at hrun
  dsimp only
  rw [outcome, ← hrun]
  exact bind_pure _

/-- The last byte is not whitespace. -/
def EndsPlain (value : Bytes) : Prop := ∀ c ∈ value.getLast?, isspace c = false

theorem isspace_of_isdigit (c : UInt8) : isdigit c = true → isspace c = false :=
  forall_byte (p := fun c => isdigit c = true → isspace c = false) (by decide +kernel) c

/-- Booleans are trimmed by their parser. -/
theorem parseBool_trim (value : Bytes) : parseBool (trim value) = parseBool value := by
  have htrim : trimWs (trim value) = trimWs value :=
    trimBoth_of_trimmed (trimmed_trimBoth isspace value)
  rw [parseBool, parseBool, htrim]

/-- What is in front of the first comma belongs to the first entry. -/
theorem splitOn_append_left {left : Bytes} (h : comma ∉ left) (s : Bytes) :
    ∃ first rest, s.splitOn comma = first :: rest ∧
      (left ++ s).splitOn comma = (left ++ first) :: rest := by
  induction left with
  | nil =>
      obtain ⟨first, rest, hpieces⟩ := List.exists_cons_of_ne_nil (List.splitOn_ne_nil comma s)
      exact ⟨first, rest, hpieces, hpieces⟩
  | cons c left ih =>
      rw [List.mem_cons, not_or] at h
      obtain ⟨first, rest, hs, hwhole⟩ := ih h.2
      refine ⟨first, rest, hs, ?_⟩
      rw [List.cons_append, List.splitOn_cons_eq_if_modifyHead, if_neg (by simp [Ne.symm h.1]),
        hwhole]
      rfl

theorem splitOn_append_right {right : Bytes} (h : comma ∉ right) (s : Bytes) :
    ∃ init last, s.splitOn comma = init ++ [last] ∧
      (s ++ right).splitOn comma = init ++ [last ++ right] := by
  induction s with
  | nil => exact ⟨[], [], rfl, List.splitOn_eq_singleton h⟩
  | cons c s ih =>
      obtain ⟨init, last, hs, hwhole⟩ := ih
      rw [List.cons_append, List.splitOn_cons_eq_if_modifyHead,
        List.splitOn_cons_eq_if_modifyHead, hs, hwhole]
      by_cases hcomma : (c == comma) = true
      · rw [if_pos hcomma, if_pos hcomma]
        exact ⟨[] :: init, last, rfl, rfl⟩
      · rw [if_neg hcomma, if_neg hcomma]
        cases init with
        | nil => exact ⟨[], c :: last, rfl, rfl⟩
        | cons first init => exact ⟨(c :: first) :: init, last, rfl, rfl⟩

theorem comma_not_mem_of_isspace {s : Bytes} (h : ∀ c ∈ s, isspace c = true) : comma ∉ s :=
  fun hmem => absurd (h comma hmem) (by decide)

/-- Whitespace around a list belongs to its first and last entries, which are trimmed. -/
theorem splitCsv_trim (value : Bytes) : splitCsv (trim value) = splitCsv value := by
  obtain ⟨left, right, hparts, hleft, hright⟩ := exists_trimBoth isspace value
  have hvalue : value = left ++ (trim value ++ right) := by rw [← List.append_assoc]; exact hparts
  obtain ⟨init, last, hs, hsr⟩ :=
    splitOn_append_right (comma_not_mem_of_isspace hright) (trim value)
  obtain ⟨first, rest, hsr', hwhole⟩ :=
    splitOn_append_left (comma_not_mem_of_isspace hleft) (trim value ++ right)
  have hfirst : trim (left ++ first) = trim first := by
    have hkeep := trimBoth_append hleft (List.forall_mem_nil _) first
    rwa [List.append_nil] at hkeep
  have hlast : trim (last ++ right) = trim last := by
    have hkeep := trimBoth_append (List.forall_mem_nil _) hright last
    rwa [List.nil_append] at hkeep
  have hpieces : (value.splitOn comma).map trim = ((trim value).splitOn comma).map trim := by
    calc (value.splitOn comma).map trim = ((left ++ (trim value ++ right)).splitOn comma).map trim := by
          rw [← hvalue]
      _ = ((trim value ++ right).splitOn comma).map trim := by
          rw [hwhole, hsr', List.map_cons, List.map_cons, hfirst]
      _ = ((trim value).splitOn comma).map trim := by
          rw [hsr, hs, List.map_append, List.map_append, List.map_singleton, List.map_singleton,
            hlast]
  rw [splitCsv, splitCsv, hpieces]

/-- `strtol` skips whitespace in front of a number. -/
theorem parseLong_append_left {left : Bytes} (h : ∀ c ∈ left, isspace c = true) (base : Nat)
    (s : Bytes) : parseLong base (left ++ s) = parseLong base s := by
  have hnul : ∀ c ∈ left, (c != 0) = true := by
    intro c hc
    have hspace := h c hc
    by_contra hzero
    rw [bne_iff_ne, not_not] at hzero
    rw [hzero] at hspace
    exact absurd hspace (by decide)
  have hconvert : strtol base (cString (left ++ s)) = strtol base (cString s) := by
    rw [cString, cString, List.takeWhile_append_of_pos hnul, strtol, strtol,
      List.dropWhile_append_of_pos h]
  have hnone : accepted (strtol base (cString [])) = none := rfl
  rw [parseLong, parseLong, hconvert]
  by_cases hs : s = []
  · subst hs
    rw [hnone, ite_self, if_pos rfl]
  · have happend : left ++ s ≠ [] := fun h => hs (List.append_eq_nil_iff.mp h).2
    rw [if_neg hs, if_neg happend]

/-- Whitespace behind a number is not read. -/
theorem parseLong_endsPlain {base : Nat} {value : Bytes} {v : Int} (hnul : (0 : UInt8) ∉ value)
    (h : parseLong base value = some v) : EndsPlain value := by
  intro c hc
  rw [parseLong] at h
  split_ifs at h
  obtain ⟨converted, hconverted, -, hrest, -⟩ := accepted_eq_some.mp h
  rw [cString_of_plain fun c hc hzero => hnul (hzero ▸ hc), strtol] at hconverted
  obtain ⟨sign, -, hsplit⟩ := scanSign_sound (value.dropWhile isspace)
  dsimp only at hconverted
  by_cases hdigits : (scanSign (value.dropWhile isspace)).2.takeWhile
      (fun c => isdigit c && decide (digitValue c < base)) = []
  · rw [if_pos hdigits] at hconverted
    cases hconverted
  · rw [if_neg hdigits] at hconverted
    cases hconverted
    rw [List.dropWhile_eq_nil_iff] at hrest
    -- The last byte of the value is the last of the digits.
    have hne : (scanSign (value.dropWhile isspace)).2 ≠ [] := by
      intro hnil
      rw [hnil] at hdigits
      exact hdigits rfl
    have hwhole : value.takeWhile isspace ++ (sign ++ (scanSign (value.dropWhile isspace)).2) =
        value := by
      rw [hsplit, List.takeWhile_append_dropWhile]
    rw [← hwhole, List.getLast?_append_of_ne_nil _ (by simp [hne]),
      List.getLast?_append_of_ne_nil _ hne] at hc
    have hdigit := hrest c (List.mem_of_mem_getLast? hc)
    rw [Bool.and_eq_true] at hdigit
    exact isspace_of_isdigit c hdigit.1

/-- A value that does not end in whitespace differs from the trimmed one at the front only. -/
theorem parseLong_trim {value : Bytes} (h : EndsPlain value) (base : Nat) :
    parseLong base (trim value) = parseLong base value := by
  obtain ⟨left, right, hparts, hleft, hright⟩ := exists_trimBoth isspace value
  have hempty : right = [] := by
    by_contra hne
    obtain ⟨c, hc⟩ := Option.ne_none_iff_exists'.mp (mt List.getLast?_eq_none_iff.mp hne)
    have hspace := hright c (List.mem_of_mem_getLast? hc)
    rw [h c (by rw [hparts, List.getLast?_append_of_ne_nil _ hne]; exact hc)] at hspace
    cases hspace
  rw [hempty, List.append_nil] at hparts
  conv_rhs => rw [hparts]
  exact (parseLong_append_left hleft base _).symm

/-- A number is read alike when it is not one, or has no whitespace behind it. -/
theorem between_trim_iff {base : Nat} {low high : Int} {value : Bytes} (hnul : (0 : UInt8) ∉ value) :
    Rule.between base low high (trim value) = Rule.between base low high value ↔
      ((Rule.between base low high (trim value)).isSome = true → EndsPlain value) := by
  constructor
  · intro h hsome
    obtain ⟨v, hv⟩ := Option.isSome_iff_exists.mp hsome
    rw [h] at hv
    exact parseLong_endsPlain hnul (between_eq_some_iff.mp hv).1
  · intro h
    by_cases hplain : EndsPlain value
    · rw [Rule.between, Rule.between, parseLong_trim hplain]
    · have hnone : Rule.between base low high (trim value) = none :=
        Option.not_isSome_iff_eq_none.mp (mt h hplain)
      rw [hnone, eq_comm, Option.eq_none_iff_forall_ne_some]
      intro v hv
      exact hplain (parseLong_endsPlain hnul (between_eq_some_iff.mp hv).1)

/-- The rule reads the same from a text and from what trimming leaves of it: texts have to be
trimmed already; a number that is accepted must have no whitespace behind it; and where an empty
text or `0` is left for a port, nothing may have been around it. -/
def ReadsTrimmed : Rule → Bytes → Prop
  | .text, value => trim value = value
  | .flag, _ => True
  | .list, _ => True
  | .natural base low high, value =>
      (Rule.between base low high (trim value)).isSome = true → EndsPlain value
  | .number low high, value =>
      (Rule.between 10 low high (trim value)).isSome = true → EndsPlain value
  | .optionalPort, value =>
      (trim value = [] ∨ trim value = ascii "0" → trim value = value) ∧
        ((Rule.between 10 1 65535 (trim value)).isSome = true → EndsPlain value)

/-- The cast to `size_t` keeps apart what was read. -/
theorem toNat_between_inj {base low high : Nat} {s t : Bytes} :
    (Rule.between base low high s).map Int.toNat = (Rule.between base low high t).map Int.toNat ↔
      Rule.between base low high s = Rule.between base low high t := by
  constructor
  · intro h
    cases hs : Rule.between base low high s with
    | none =>
        rw [hs, Option.map_none, eq_comm, Option.map_eq_none_iff] at h
        exact h.symm
    | some a =>
        rw [hs, Option.map_some, eq_comm, Option.map_eq_some_iff] at h
        obtain ⟨b, hb, hab⟩ := h
        obtain ⟨-, hlow, -⟩ := between_eq_some_iff.mp hs
        obtain ⟨-, hlow', -⟩ := between_eq_some_iff.mp hb
        have hvalue : a = b := by omega
        rw [hb, hvalue]
  · intro h
    rw [h]

/-- The port that may be left out: an empty text and `0` count only as they are. -/
theorem optionalPort_trim_iff {value : Bytes} (hnul : (0 : UInt8) ∉ value) :
    Rule.optionalPort.read (trim value) = Rule.optionalPort.read value ↔
      ReadsTrimmed .optionalPort value := by
  rw [Rule.read, Rule.read, ReadsTrimmed]
  have hsame : value = [] ∨ value = ascii "0" → trim value = value := by
    intro h
    rcases h with rfl | rfl
    · rfl
    · exact trimBoth_of_trimmed (trimmed_singleton rfl)
  by_cases hoff : trim value = [] ∨ trim value = ascii "0"
  · have hnone : Rule.between 10 1 65535 (trim value) = none := by
      rcases hoff with h | h
      · rw [h]
        rfl
      · rw [h]
        decide +kernel
    rw [if_pos hoff, hnone]
    simp only [hoff, true_imp_iff, Option.isSome_none, Bool.false_eq_true, false_imp_iff, and_true]
    constructor
    · intro h
      by_contra hne
      rw [if_neg (mt hsame hne)] at h
      obtain ⟨-, hlow, -⟩ := between_eq_some_iff.mp h.symm
      exact absurd hlow (by decide)
    · intro h
      rw [if_pos (h ▸ hoff)]
  · have hoff' : ¬(value = [] ∨ value = ascii "0") := fun h => hoff ((hsame h).symm ▸ h)
    rw [if_neg hoff, if_neg hoff', between_trim_iff hnul]
    simp only [hoff, false_imp_iff, true_and]

/-- **A rule reads a value and its trimmed text alike** exactly where it is said to. -/
theorem read_trim_iff (rule : Rule) {value : Bytes} (hnul : (0 : UInt8) ∉ value) :
    rule.read (trim value) = rule.read value ↔ ReadsTrimmed rule value := by
  cases rule with
  | text => exact Option.some_inj
  | flag => exact iff_true_intro (parseBool_trim value)
  | list => exact iff_true_intro (congrArg some (splitCsv_trim value))
  | natural base low high => exact toNat_between_inj.trans (between_trim_iff hnul)
  | number low high => exact between_trim_iff hnul
  | optionalPort => exact optionalPort_trim_iff hnul

/-- Both front ends succeed and leave the same settings, or both fail. -/
def Agree (loaded : Loaded) (applied : Applied) : Prop :=
  (loaded.ok = true ∧ applied.ok = true ∧ loaded.cfg = applied.cfg) ∨
    (loaded.ok = false ∧ applied.ok = false)

/-- Two ways agree when their outcomes are one. -/
theorem agree_iff_outcome (loaded : Loaded) (applied : Applied) :
    Agree loaded applied ↔ outcome loaded.ok loaded.cfg = outcome applied.ok applied.cfg := by
  unfold Agree outcome
  cases loaded.ok <;> cases applied.ok <;> simp

/-- What is set under a key can be told from the configuration. -/
theorem set_inj {cfg : Config} {key : ConfigKey} {x y : key.rule.Value}
    (h : cfg.set key x = cfg.set key y) : x = y := by
  have hget : (cfg.set key x).get key = (cfg.set key y).get key := by rw [h]
  rw [Config.set, Config.set, Config.get_ofFields, Config.get_ofFields, Function.update_self,
    Function.update_self] at hget
  exact hget

/-- **When the two front ends agree** on a value: when the rule of the key reads the same from
it and from the trimmed value. -/
theorem agree_iff (path : Bytes) (warnings : Option (List Bytes)) (key : ConfigKey) (cfg : Config)
    {value : Bytes} (hline : newline ∉ value) (hnul : (0 : UInt8) ∉ value) :
    Agree (loadConfig path (some (keyLine key value ++ [newline])) cfg warnings)
        (applyEnvOverrides (onlyVariable key value) cfg) ↔
      ReadsTrimmed key.rule value := by
  rw [agree_iff_outcome, loadConfig_line path key hline, applyEnv_only, ← read_trim_iff _ hnul]
  exact Option.map_inj_right fun _ _ => set_inj

/-- A number with a blank in front of it and none behind. -/
theorem agree_leading_blank :
    Agree
      (loadConfig (ascii "f") (some (keyLine .threads (ascii " 12") ++ [newline])) {} none)
      (applyEnvOverrides (onlyVariable .threads (ascii " 12")) {}) := by
  apply (agree_iff _ _ .threads {} (by decide) (by decide)).mpr
  intro _ c hc
  have hlast : (ascii " 12").getLast? = some 50 := rfl
  rw [hlast] at hc
  cases hc
  rfl

/-- The same number with the blank behind it is accepted from the file only. -/
theorem not_agree_trailing_blank :
    let loaded := loadConfig (ascii "f") (some (keyLine .threads (ascii "12 ") ++ [newline])) {} none
    let applied := applyEnvOverrides (onlyVariable .threads (ascii "12 ")) {}
    loaded.ok = true ∧ applied.ok = false ∧ ¬ Agree loaded applied := by
  intro loaded applied
  have hloaded : loaded.ok = true := by decide +kernel
  have happlied : applied.ok = false := by decide +kernel
  refine ⟨hloaded, happlied, ?_⟩
  rw [Agree, hloaded, happlied]
  simp

end Nshmqtt
