import Mathlib.Data.List.Nodup
import Nshmqtt.JsonLeaves
import Nshmqtt.MessageHandler

/-!
# When the leaves of an object keep apart

A key is joined to the name above it with `_`, unless that name is empty: then the key
is taken for one at the top.  An empty key at the top has the empty name, so the keys
below it are joined as if it was not there, and their leaves share the names of others.
With keys that are distinct and have no `_` in them that is the only way for two leaves
to get one name.
-/

namespace Nshmqtt

open ByteStrings JsonGrammar

/-- The name that the joins give to the leaf at the end of a path. -/
def leafName (path : List Bytes) : Bytes := path.foldl joinedName []

/-- Empty keys at the start of a path leave no trace. -/
theorem leafName_eq (path : List Bytes) :
    leafName path = pathName (path.dropWhile List.isEmpty) := by
  unfold leafName
  induction path with
  | nil => rfl
  | cons key path ih =>
      by_cases hkey : key = []
      · subst hkey
        exact ih
      · have hfirst : List.isEmpty key = false := by simpa using hkey
        rw [List.foldl_cons, show joinedName [] key = key from if_pos rfl,
          List.dropWhile_cons_of_neg (by simp [hfirst]), foldl_joinedName path hkey]

/-- The keys of a name are the pieces between the underscores. -/
theorem splitOn_pathName {path : List Bytes} (hne : path ≠ []) (hplain : ∀ key ∈ path, 95 ∉ key) :
    (pathName path).splitOn 95 = path :=
  List.splitOn_intercalate 95 hplain hne

/-- A path that begins with a name has one. -/
theorem pathName_ne_nil {first : Bytes} (hfirst : first ≠ []) (path : List Bytes) :
    pathName (first :: path) ≠ [] := by
  cases path with
  | nil => simpa [pathName] using hfirst
  | cons next path =>
      rw [pathName_cons]
      simp [hfirst]

/-- The first key that is left is not empty. -/
theorem exists_dropWhile_cons {path : List Bytes} (h : path.dropWhile List.isEmpty ≠ []) :
    ∃ first rest, path.dropWhile List.isEmpty = first :: rest ∧ first ≠ [] := by
  obtain ⟨first, rest, hcons⟩ := List.exists_cons_of_ne_nil h
  refine ⟨first, rest, hcons, ?_⟩
  have hnot := List.head?_dropWhile_not List.isEmpty path
  rw [hcons] at hnot
  simpa using hnot

/-- **One name, one path**, up to empty keys at the start. -/
theorem leafName_eq_iff {path other : List Bytes} (hpath : ∀ key ∈ path, 95 ∉ key)
    (hother : ∀ key ∈ other, 95 ∉ key) :
    leafName path = leafName other ↔
      path.dropWhile List.isEmpty = other.dropWhile List.isEmpty := by
  rw [leafName_eq, leafName_eq]
  constructor
  · intro h
    by_cases hnil : path.dropWhile List.isEmpty = []
    · by_cases hnil' : other.dropWhile List.isEmpty = []
      · rw [hnil, hnil']
      · obtain ⟨first, rest, hcons, hfirst⟩ := exists_dropWhile_cons hnil'
        rw [hnil, hcons] at h
        exact absurd h.symm (pathName_ne_nil hfirst rest)
    · by_cases hnil' : other.dropWhile List.isEmpty = []
      · obtain ⟨first, rest, hcons, hfirst⟩ := exists_dropWhile_cons hnil
        rw [hnil', hcons] at h
        exact absurd h (pathName_ne_nil hfirst rest)
      · have hdrop : ∀ {l : List Bytes}, (∀ key ∈ l, 95 ∉ key) →
            ∀ key ∈ l.dropWhile List.isEmpty, 95 ∉ key :=
          fun hl key hkey => hl key ((List.dropWhile_sublist _).mem hkey)
        rw [← splitOn_pathName hnil (hdrop hpath), h, splitOn_pathName hnil' (hdrop hother)]
  · intro h
    rw [h]

/-- A path is its empty keys and what follows them. -/
theorem eq_replicate_append (path : List Bytes) : ∃ n,
    path = List.replicate n [] ++ path.dropWhile List.isEmpty := by
  refine ⟨(path.takeWhile List.isEmpty).length, ?_⟩
  have hempty : path.takeWhile List.isEmpty =
      List.replicate (path.takeWhile List.isEmpty).length [] := by
    rw [List.eq_replicate_iff]
    exact ⟨rfl, fun key hkey => by simpa using List.mem_takeWhile_imp hkey⟩
  rw [← hempty, List.takeWhile_append_dropWhile]

/-- Further empty keys in front are dropped like the others. -/
theorem dropWhile_replicate (n : Nat) (path : List Bytes) :
    (List.replicate n [] ++ path).dropWhile List.isEmpty = path.dropWhile List.isEmpty := by
  induction n with
  | zero => rfl
  | succ n ih =>
      rw [List.replicate_succ, List.cons_append]
      exact ih

/-- Two paths without a difference in name differ by empty keys at the start. -/
theorem same_dropWhile_iff {path other : List Bytes} :
    path.dropWhile List.isEmpty = other.dropWhile List.isEmpty ↔
      ∃ n, path = List.replicate n [] ++ other ∨ other = List.replicate n [] ++ path := by
  constructor
  · intro h
    obtain ⟨m, hm⟩ := eq_replicate_append path
    obtain ⟨k, hk⟩ := eq_replicate_append other
    rw [h] at hm
    by_cases hle : k ≤ m
    · refine ⟨m - k, .inl ?_⟩
      rw [hk, ← List.append_assoc, List.replicate_append_replicate, Nat.sub_add_cancel hle]
      exact hm
    · refine ⟨k - m, .inr ?_⟩
      rw [hm, ← List.append_assoc, List.replicate_append_replicate, Nat.sub_add_cancel (by omega)]
      exact hk
  · intro h
    obtain ⟨n, rfl | rfl⟩ := h
    · exact dropWhile_replicate n other
    · exact (dropWhile_replicate n path).symm

/-- The keys of an object, as they are read. -/
def memberKeys : Members → List Bytes
  | .last key _ _ _ => [jsonUnescape key.name.body]
  | .more key _ _ _ rest => jsonUnescape key.name.body :: memberKeys rest

mutual

/-- Every object that is descended into has distinct keys. -/
def DistinctKeys : Value → Prop
  | .object members => (memberKeys members).Nodup ∧ DistinctMemberKeys members
  | _ => True

def DistinctMemberKeys : Members → Prop
  | .last _ _ value _ => DistinctKeys value
  | .more _ _ value _ rest => DistinctKeys value ∧ DistinctMemberKeys rest

end

/-- A path starts with a key of the object. -/
theorem exists_key_of_mem : ∀ (members : Members) {leaf : List Bytes × Double},
    leaf ∈ leavesOfMembers members → ∃ key ∈ memberKeys members, leaf.1.head? = some key
  | .last key _ value _, leaf, hleaf => by
      obtain ⟨inner, -, rfl⟩ := List.mem_map.mp hleaf
      exact ⟨_, List.mem_cons_self, rfl⟩
  | .more key _ value _ rest, leaf, hleaf => by
      rcases List.mem_append.mp hleaf with hleaf | hleaf
      · obtain ⟨inner, -, rfl⟩ := List.mem_map.mp hleaf
        exact ⟨_, List.mem_cons_self, rfl⟩
      · obtain ⟨other, hother, hhead⟩ := exists_key_of_mem rest hleaf
        exact ⟨other, List.mem_cons_of_mem _ hother, hhead⟩

/-- Leaves keep their distinct paths under a key. -/
theorem nodup_underKey (key : Key) {leaves : List (List Bytes × Double)}
    (h : (leaves.map Prod.fst).Nodup) : ((leaves.map (underKey key)).map Prod.fst).Nodup := by
  have hmap : (leaves.map (underKey key)).map Prod.fst =
      (leaves.map Prod.fst).map (jsonUnescape key.name.body :: ·) := by
    simp [underKey]
  rw [hmap]
  exact h.map fun _ _ heq => (List.cons.inj heq).2

mutual

/-- **The paths of an object with distinct keys are distinct.** -/
theorem nodup_paths : ∀ value : Value, DistinctKeys value →
    ((leavesOf value).map Prod.fst).Nodup
  | .number n, _ => by
      unfold leavesOf
      cases parseDouble n.text with
      | none => exact List.nodup_nil
      | some v => exact List.nodup_singleton _
  | .boolean _, _ => List.nodup_singleton _
  | .object members, h => nodup_member_paths members h.1 h.2
  | .string _, _ => List.nodup_nil
  | .null, _ => List.nodup_nil
  | .emptyArray _, _ => List.nodup_nil
  | .array _, _ => List.nodup_nil
  | .emptyObject _, _ => List.nodup_nil

/-- Members with distinct keys have distinct paths, by induction along with the values. -/
theorem nodup_member_paths : ∀ members : Members, (memberKeys members).Nodup →
    DistinctMemberKeys members → ((leavesOfMembers members).map Prod.fst).Nodup
  | .last key _ value _, _, h => nodup_underKey key (nodup_paths value h)
  | .more key _ value _ rest, hkeys, h => by
      obtain ⟨hnew, hrestKeys⟩ := List.nodup_cons.mp hkeys
      rw [leavesOfMembers, List.map_append, List.nodup_append]
      refine ⟨nodup_underKey key (nodup_paths value h.1), nodup_member_paths rest hrestKeys h.2, ?_⟩
      intro path hpath other hother heq
      subst heq
      obtain ⟨leaf, hleaf, rfl⟩ := List.mem_map.mp hpath
      obtain ⟨inner, -, rfl⟩ := List.mem_map.mp hleaf
      obtain ⟨leaf', hleaf', heq⟩ := List.mem_map.mp hother
      obtain ⟨key', hkey', hhead⟩ := exists_key_of_mem rest hleaf'
      rw [heq] at hhead
      exact hnew (Option.some.inj hhead ▸ hkey')

end

/-- Names that are not among the leaves keep their values. -/
theorem get_foldl_set_of_not_mem {leaves : List (Bytes × Double)} {name : Bytes}
    (h : name ∉ leaves.map Prod.fst) (store : StateStore) :
    (leaves.foldl (fun store leaf => store.set leaf.1 leaf.2) store).get name = store.get name := by
  induction leaves generalizing store with
  | nil => rfl
  | cons leaf leaves ih =>
      rw [List.map_cons, List.mem_cons, not_or] at h
      rw [List.foldl_cons, ih h.2]
      exact SortedMap.lookup_insert_of_ne store leaf.2 h.1

/-- Entries with distinct names are all kept. -/
theorem get_foldl_set {leaves : List (Bytes × Double)} (hnodup : (leaves.map Prod.fst).Nodup)
    {leaf : Bytes × Double} (hleaf : leaf ∈ leaves) (store : StateStore) :
    (leaves.foldl (fun store leaf => store.set leaf.1 leaf.2) store).get leaf.1 = some leaf.2 := by
  induction leaves generalizing store with
  | nil => cases hleaf
  | cons first leaves ih =>
      obtain ⟨hnew, hrest⟩ := List.nodup_cons.mp hnodup
      rw [List.foldl_cons]
      rcases List.mem_cons.mp hleaf with rfl | hleaf
      · rw [get_foldl_set_of_not_mem hnew]
        exact SortedMap.lookup_insert_self store leaf.1 leaf.2
      · exact ih hrest hleaf _

/-- The message is stored as the leaves of a JSON object. -/
def StoredAsJson (cfg : Config) (msg : IncomingMessage) : Prop :=
  cfg.subscribeEnabled = true ∧ topicMatchesAny msg.topic cfg.subscribeTopics = true ∧
    msg.topic ∈ cfg.prometheusMqttJsonTopics

/-- The handler stores every leaf under the topic. -/
theorem store_messageHandler {cfg : Config} {msg : IncomingMessage} (h : StoredAsJson cfg msg)
    {leaves : List (Bytes × Double)} (hleaves : flattenJsonObject msg.payload = some leaves)
    (store : StateStore) :
    (messageHandler cfg store msg).store =
      (leaves.map fun leaf => (msg.topic ++ ascii "/" ++ leaf.1, leaf.2)).foldl
        (fun store leaf => store.set leaf.1 leaf.2) store := by
  obtain ⟨henabled, hmatches, hjson⟩ := h
  have hupdates : messageUpdates cfg msg.topic msg.payload =
      some (leaves.map fun leaf => (msg.topic ++ ascii "/" ++ leaf.1, leaf.2)) := by
    unfold messageUpdates
    rw [if_pos (by rw [henabled, hmatches]; rfl), if_pos hjson, hleaves]
    rfl
  unfold messageHandler
  rw [hupdates]
  rfl

/-- What is promised for an object: its leaves get names that are all different, and the
handler stores each of them under its own. -/
def LeavesKept (doc : Document) : Prop :=
  ∃ leaves, flattenJsonObject doc.render = some leaves ∧
    leaves.map Prod.snd = (leavesOf doc.value).map Prod.snd ∧ (leaves.map Prod.fst).Nodup ∧
    ∀ (cfg : Config) (store : StateStore) (msg : IncomingMessage), msg.payload = doc.render →
      StoredAsJson cfg msg → ∀ leaf ∈ leaves,
        (messageHandler cfg store msg).store.get (msg.topic ++ ascii "/" ++ leaf.1) = some leaf.2

/-- Different names are all the handler needs. -/
theorem leavesKept_iff_nodup {doc : Document} (hobject : doc.value.isObject = true)
    (hread : NumbersRead doc.value) :
    LeavesKept doc ↔ ((leavesOf doc.value).map fun leaf => leafName leaf.1).Nodup := by
  have hflatten := flattenJsonObject_leaves hobject hread []
  rw [List.append_nil] at hflatten
  have hnames : (leavesBelow [] (leavesOf doc.value)).map Prod.fst =
      (leavesOf doc.value).map fun leaf => leafName leaf.1 := by
    simp [leavesBelow, leafName]
  constructor
  · intro h
    obtain ⟨leaves, hleaves, -, hnodup, -⟩ := h
    rw [hflatten] at hleaves
    rw [← hnames, Option.some.inj hleaves]
    exact hnodup
  · intro hnodup
    rw [← hnames] at hnodup
    refine ⟨_, hflatten, by simp [leavesBelow], hnodup, ?_⟩
    intro cfg store msg hpayload hstored leaf hleaf
    rw [store_messageHandler hstored (hpayload ▸ hflatten)]
    have hfull : (((leavesBelow [] (leavesOf doc.value)).map fun leaf =>
        (msg.topic ++ ascii "/" ++ leaf.1, leaf.2)).map Prod.fst).Nodup := by
      have hmap : ((leavesBelow [] (leavesOf doc.value)).map fun leaf =>
          (msg.topic ++ ascii "/" ++ leaf.1, leaf.2)).map Prod.fst =
          ((leavesBelow [] (leavesOf doc.value)).map Prod.fst).map
            (msg.topic ++ ascii "/" ++ ·) := by
        simp
      rw [hmap]
      exact hnodup.map fun _ _ heq => List.append_cancel_left heq
    exact get_foldl_set hfull (List.mem_map_of_mem
      (f := fun leaf : Bytes × Double => (msg.topic ++ ascii "/" ++ leaf.1, leaf.2)) hleaf) store

/-- **Which objects keep their leaves apart**: those in which no leaf stands at the path
of another one with further empty keys in front. -/
theorem leavesKept_iff {doc : Document} (hobject : doc.value.isObject = true)
    (hdistinct : DistinctKeys doc.value) (hplain : AllKeys (95 ∉ ·) doc.value)
    (hread : NumbersRead doc.value) :
    LeavesKept doc ↔ ∀ leaf ∈ leavesOf doc.value, ∀ other ∈ leavesOf doc.value, ∀ n,
      leaf.1 = List.replicate n [] ++ other.1 → n = 0 := by
  have hpaths := path_allKeys doc.value hplain
  have hnodup := nodup_paths doc.value hdistinct
  rw [leavesKept_iff_nodup hobject hread]
  constructor
  · intro hnames leaf hleaf other hother n heq
    have hsame : leafName leaf.1 = leafName other.1 := by
      rw [leafName_eq_iff (hpaths leaf hleaf) (hpaths other hother), same_dropWhile_iff]
      exact ⟨n, .inl heq⟩
    have hleaves : leaf = other := List.inj_on_of_nodup_map hnames hleaf hother hsame
    have hlength := congrArg List.length (hleaves ▸ heq)
    rw [List.length_append, List.length_replicate] at hlength
    omega
  · intro hshift
    refine List.Nodup.map_on ?_ hnodup.of_map
    intro leaf hleaf other hother hsame
    rw [leafName_eq_iff (hpaths leaf hleaf) (hpaths other hother), same_dropWhile_iff] at hsame
    have hpath : leaf.1 = other.1 := by
      obtain ⟨n, hn | hn⟩ := hsame
      · rw [hshift leaf hleaf other hother n hn] at hn
        exact hn
      · rw [hshift other hother leaf hleaf n hn] at hn
        exact hn.symm
    exact List.inj_on_of_nodup_map hnodup hleaf hother hpath

theorem stringBody_b : StringBody [98] := .plain (by decide) (by decide) (by decide) .nil

/-- `\x7b"b":\x7b"a":true\x7d,"a":false\x7d`. -/
def twoLeafDocument : Document where
  before := .none
  value := .object (.more (plainKey [98] stringBody_b) .none
    (.object (.last (plainKey [97] stringBody_a) .none
      (.boolean true) .none)) .none
    (.last (plainKey [97] stringBody_a) .none
      (.boolean false) .none))
  after := .none

/-- Both leaves are kept, although their paths end alike. -/
theorem leavesKept_iff_twoLeaves :
    (leavesOf twoLeafDocument.value).map Prod.fst = [[[98], [97]], [[97]]] ∧
      LeavesKept twoLeafDocument := by
  have hdistinct : DistinctKeys twoLeafDocument.value :=
    ⟨by decide, ⟨by decide, trivial⟩, trivial⟩
  have hplain : AllKeys (95 ∉ ·) twoLeafDocument.value :=
    ⟨⟨by decide, by decide, trivial⟩, by decide, trivial⟩
  have hpaths : (leavesOf twoLeafDocument.value).map Prod.fst = [[[98], [97]], [[97]]] := by
    decide +kernel
  refine ⟨hpaths, (leavesKept_iff rfl hdistinct hplain ⟨trivial, trivial⟩).mpr ?_⟩
  intro leaf hleaf other _ n heq
  have hpath := List.mem_map_of_mem (f := Prod.fst) hleaf
  rw [hpaths] at hpath
  cases n with
  | zero => rfl
  | succ n =>
      -- the path of a leaf would begin with an empty key
      rw [heq] at hpath
      simp [List.replicate_succ] at hpath

/-- `\x7b"":\x7b"a":true\x7d,"a":false\x7d`. -/
def emptyKeyDocument : Document where
  before := .none
  value := .object (.more (plainKey [] .nil) .none
    (.object (.last (plainKey [97] stringBody_a) .none
      (.boolean true) .none)) .none
    (.last (plainKey [97] stringBody_a) .none
      (.boolean false) .none))
  after := .none

/-- The leaf below the empty key is overwritten. -/
theorem leavesKept_emptyKey :
    emptyKeyDocument.render = ascii "\x7b\"\":\x7b\"a\":true\x7d,\"a\":false\x7d" ∧
      DistinctKeys emptyKeyDocument.value ∧ AllKeys (95 ∉ ·) emptyKeyDocument.value ∧
      NumbersRead emptyKeyDocument.value ∧
      flattenJsonObject emptyKeyDocument.render =
        some [(ascii "a", Binary64.ofInt 1), (ascii "a", Binary64.ofInt 0)] ∧
      ¬ LeavesKept emptyKeyDocument := by
  have hdistinct : DistinctKeys emptyKeyDocument.value :=
    ⟨by decide, ⟨by decide, trivial⟩, trivial⟩
  have hplain : AllKeys (95 ∉ ·) emptyKeyDocument.value :=
    ⟨⟨by decide, by decide, trivial⟩, by decide, trivial⟩
  have hread : NumbersRead emptyKeyDocument.value := ⟨trivial, trivial⟩
  have hobject : emptyKeyDocument.value.isObject = true := rfl
  have hflatten := flattenJsonObject_leaves hobject hread []
  have hleaves : leavesBelow [] (leavesOf emptyKeyDocument.value) =
      [(ascii "a", Binary64.ofInt 1), (ascii "a", Binary64.ofInt 0)] := by decide +kernel
  rw [List.append_nil, hleaves] at hflatten
  refine ⟨by decide +kernel, hdistinct, hplain, hread, hflatten, ?_⟩
  rw [leavesKept_iff_nodup rfl hread]
  decide +kernel

end Nshmqtt
