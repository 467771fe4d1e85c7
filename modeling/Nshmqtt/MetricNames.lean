import Nshmqtt.FirstClaims
import Nshmqtt.Metrics

/-!
# The series of the state metrics

Mapping topic names to Prometheus names is many-to-one: every other byte becomes
`_`, and a leading digit is moved behind one.  `normalizeAll` walks over the
snapshot, which a sorted map lists in byte order, and the first name to ask for
a Prometheus name gets it.  So every Prometheus name belongs to the smallest
stored name that maps to it, and the other names are reported as collisions.
-/

namespace Nshmqtt

open ByteStrings

/-- A valid Prometheus name: `[A-Za-z0-9_]`, not empty, no digit in front. -/
structure IsMetricName (name : Bytes) : Prop where
  nonempty : name ≠ []
  bytes : ∀ c ∈ name, isNameByte c = true
  no_digit : ∀ c, name.head? = some c → isdigit c = false

/-- The name is the prefix and a body of name bytes without a digit in front. -/
theorem normalizeMetricName_eq (pre name topicPrefix : Bytes) :
    ∃ body, normalizeMetricName pre name topicPrefix = pre ++ body ∧
      (∀ c ∈ body, isNameByte c = true) ∧ (∀ c, body.head? = some c → isdigit c = false) ∧
      (name ≠ [] → body ≠ []) := by
  have hbytes : ∀ c ∈ (topicPrefix ++ name).map fun c => if isNameByte c then c else 95,
      isNameByte c = true := by
    intro c hc
    obtain ⟨d, -, rfl⟩ := List.mem_map.mp hc
    by_cases hd : isNameByte d = true
    · rw [if_pos hd]
      exact hd
    · rw [if_neg hd]
      rfl
  unfold normalizeMetricName
  cases hbody : (topicPrefix ++ name).map fun c => if isNameByte c then c else 95 with
  | nil =>
      refine ⟨[], rfl, List.forall_mem_nil _, ?_, ?_⟩
      · intro c hc
        simp at hc
      · intro hname
        simp [hname] at hbody
  | cons c rest =>
      rw [hbody] at hbytes
      by_cases hdigit : isdigit c = true
      · refine ⟨95 :: c :: rest, ?_, ?_, ?_, fun _ => List.cons_ne_nil _ _⟩
        · exact if_pos hdigit
        · intro d hd
          rcases List.mem_cons.mp hd with rfl | hd
          · rfl
          · exact hbytes d hd
        · intro d hd
          cases Option.some.inj hd
          rfl
      · refine ⟨c :: rest, if_neg hdigit, hbytes, ?_, fun _ => List.cons_ne_nil _ _⟩
        intro d hd
        cases Option.some.inj hd
        exact Bool.eq_false_iff.mpr hdigit

/-- A non-empty name becomes a valid one, behind nothing or a valid prefix. -/
theorem isMetricName_normalizeMetricName {pre name : Bytes}
    (hpre : pre = [] ∨ IsMetricName pre) (hname : name ≠ []) (topicPrefix : Bytes) :
    IsMetricName (normalizeMetricName pre name topicPrefix) := by
  obtain ⟨body, heq, hbytes, hdigit, hnonempty⟩ := normalizeMetricName_eq pre name topicPrefix
  rw [heq]
  rcases hpre with rfl | hpre
  · exact ⟨hnonempty hname, hbytes, hdigit⟩
  · refine ⟨by simp [hpre.nonempty], fun c hc => ?_, fun c hc => hpre.no_digit c ?_⟩
    · rcases List.mem_append.mp hc with hc | hc
      · exact hpre.bytes c hc
      · exact hbytes c hc
    · cases pre with
      | nil => exact absurd rfl hpre.nonempty
      | cons first rest => exact hc

/-- The walk is the first-claim rule for the Prometheus names. -/
theorem normalizeFrom_eq (pre topicPrefix : Bytes) (claimed : List Bytes)
    (items : List (Bytes × Double)) :
    normalizeFrom pre topicPrefix claimed items =
      ⟨(FirstClaims.winners (fun item => normalizeMetricName pre item.1 topicPrefix)
          claimed items).map fun item => (normalizeMetricName pre item.1 topicPrefix, item.2),
        (FirstClaims.losers (fun item => normalizeMetricName pre item.1 topicPrefix)
          claimed items).map Prod.fst⟩ := by
  induction items generalizing claimed with
  | nil => rfl
  | cons item items ih =>
      by_cases hclaimed : normalizeMetricName pre item.1 topicPrefix ∈ claimed
      · simp only [normalizeFrom, FirstClaims.winners, FirstClaims.losers, if_pos hclaimed, ih,
          List.map_cons]
      · simp only [normalizeFrom, FirstClaims.winners, FirstClaims.losers, if_neg hclaimed, ih,
          List.map_cons]

/-- A stored name is an entry of the snapshot. -/
theorem mem_keys_iff_exists {store : StateStore} {name : Bytes} :
    name ∈ store.keys ↔ ∃ value, (name, value) ∈ store.snapshot := by
  unfold SortedMap.keys StateStore.snapshot
  simp

/-- What the series and the collisions of a store must be. -/
structure SeriesOf (store : StateStore) (normalize : Bytes → Bytes)
    (result : NormalizedMetrics) : Prop where
  /-- Every series has a valid name. -/
  valid : ∀ series ∈ result.metrics, IsMetricName series.1
  /-- No two series have one name. -/
  distinct : (result.metrics.map Prod.fst).Nodup
  /-- Every stored name has its series. -/
  covered : ∀ name ∈ store.keys, ∃! series, series ∈ result.metrics ∧ series.1 = normalize name
  /-- A series has the value of the smallest stored name that maps to it. -/
  smallest : ∀ series value, (series, value) ∈ result.metrics ↔
    ∃ name, store.get name = some value ∧ normalize name = series ∧
      ∀ other ∈ store.keys, normalize other = series → name ≤ other
  /-- The collisions are the other names, -/
  collided : ∀ name, name ∈ result.collisions ↔
    name ∈ store.keys ∧ ∃ other ∈ store.keys, normalize other = normalize name ∧ other < name
  /-- each of them once. -/
  once : result.collisions.Nodup
  total : result.metrics.length + result.collisions.length = store.size

/-- **The state metrics.**  `normalizeAll` over a snapshot gives every
Prometheus name to the smallest stored name and reports the others. -/
theorem normalizeAll_snapshot {store : StateStore} {pre : Bytes}
    (hpre : pre = [] ∨ IsMetricName pre) (hnames : ∀ name ∈ store.keys, name ≠ [])
    (topicPrefix : Bytes) :
    SeriesOf store (fun name => normalizeMetricName pre name topicPrefix)
      (normalizeAll pre store.snapshot topicPrefix) := by
  have hsorted : store.snapshot.Pairwise fun a b => a.1 < b.1 := List.pairwise_map.mp store.sorted
  have hget : ∀ name value, store.get name = some value ↔ (name, value) ∈ store.snapshot :=
    fun name value => (store.mem_entries_iff name value).symm
  unfold normalizeAll
  rw [normalizeFrom_eq]
  set key : Bytes × Double → Bytes := fun item => normalizeMetricName pre item.1 topicPrefix
    with hkey
  have hwinners := FirstClaims.mem_winners_iff key hsorted []
  have hlosers := FirstClaims.mem_losers_iff key hsorted []
  have hdistinct := FirstClaims.nodup_keys key [] store.snapshot
  constructor
  · intro series hseries
    obtain ⟨item, hitem, rfl⟩ := List.mem_map.mp hseries
    have hmem := ((hwinners item).mp hitem).1
    exact isMetricName_normalizeMetricName hpre
      (hnames item.1 (mem_keys_iff_exists.mpr ⟨item.2, hmem⟩)) topicPrefix
  · rw [List.map_map]
    exact hdistinct
  · intro name hname
    obtain ⟨value, hvalue⟩ := mem_keys_iff_exists.mp hname
    obtain ⟨item, hitem, hsame⟩ := FirstClaims.exists_winner key hvalue List.not_mem_nil
    refine ⟨(key item, item.2), ⟨List.mem_map.mpr ⟨item, hitem, rfl⟩, hsame⟩, ?_⟩
    intro series h
    obtain ⟨hseries, hseriesName⟩ := h
    obtain ⟨other, hother, rfl⟩ := List.mem_map.mp hseries
    have hbound := List.inj_on_of_nodup_map hdistinct hother hitem (hseriesName.trans hsame.symm)
    rw [hbound]
  · intro series value
    constructor
    · intro hseries
      obtain ⟨item, hitem, heq⟩ := List.mem_map.mp hseries
      obtain ⟨rfl, rfl⟩ := Prod.mk.inj heq
      obtain ⟨hmem, -, hleast⟩ := (hwinners item).mp hitem
      refine ⟨item.1, (hget _ _).mpr hmem, rfl, fun other hother hsame => ?_⟩
      obtain ⟨otherValue, hotherMem⟩ := mem_keys_iff_exists.mp hother
      exact hleast _ hotherMem hsame
    · intro h
      obtain ⟨name, hname, rfl, hleast⟩ := h
      refine List.mem_map.mpr ⟨(name, value), (hwinners _).mpr ⟨(hget _ _).mp hname, ?_, ?_⟩, rfl⟩
      · exact List.not_mem_nil
      · exact fun other hother hsame =>
          hleast other.1 (mem_keys_iff_exists.mpr ⟨other.2, hother⟩) hsame
  · intro name
    constructor
    · intro hname
      obtain ⟨item, hitem, rfl⟩ := List.mem_map.mp hname
      obtain ⟨hmem, hlost⟩ := (hlosers item).mp hitem
      obtain ⟨other, hother, hsame, hlt⟩ := hlost.resolve_left List.not_mem_nil
      exact ⟨mem_keys_iff_exists.mpr ⟨item.2, hmem⟩, other.1,
        mem_keys_iff_exists.mpr ⟨other.2, hother⟩, hsame, hlt⟩
    · intro h
      obtain ⟨hname, other, hother, hsame, hlt⟩ := h
      obtain ⟨value, hvalue⟩ := mem_keys_iff_exists.mp hname
      obtain ⟨otherValue, hotherMem⟩ := mem_keys_iff_exists.mp hother
      exact List.mem_map.mpr ⟨(name, value), (hlosers _).mpr
        ⟨hvalue, .inr ⟨(other, otherValue), hotherMem, hsame, hlt⟩⟩, rfl⟩
  · have hnodup : (store.snapshot.map Prod.fst).Nodup := store.sorted.imp fun h => h.ne
    exact hnodup.sublist ((FirstClaims.losers_sublist key [] store.snapshot).map Prod.fst)
  · simp only [List.length_map]
    exact FirstClaims.length_add key [] store.snapshot

/-- The digit rule alone makes two names collide. -/
theorem normalizeAll_snapshot_digit :
    let store := (StateStore.set SortedMap.empty (ascii "_1a") (.ofInt 1)).set (ascii "1a") (.ofInt 2)
    (∀ name ∈ store.keys, name ≠ []) ∧
      SeriesOf store (fun name => normalizeMetricName (ascii "mqtt_") name [])
        (normalizeAll (ascii "mqtt_") store.snapshot []) ∧
      (normalizeAll (ascii "mqtt_") store.snapshot []).collisions = [ascii "_1a"] := by
  have hpre : IsMetricName (ascii "mqtt_") := by
    refine ⟨nofun, List.all_eq_true.mp rfl, fun c hc => ?_⟩
    cases Option.some.inj hc
    rfl
  refine ⟨by decide, normalizeAll_snapshot (.inr hpre) (by decide) [], by decide⟩

end Nshmqtt
