import Nshmqtt.IntegerRoundTrip
import Nshmqtt.RouteAccess
import Nshmqtt.StateRoundTrip

/-!
# Integers written through PUT

A written value leaves the process twice, as the payload of the retained
publish and in the text of the state file, both times in its nine-digit form.
An echo or a restart brings back what that text says.
-/

namespace Nshmqtt

open ByteStrings Binary64 StateStore

/-- Both texts of a written value are read back as the value: the payload of
the publish, and the entry in the saved file. -/
def WriteReturns (cfg : Config) (env : Surroundings) (s : ServerState) (name : Bytes)
    (value : Double) : Prop :=
  let written := (handleMetricWrite cfg env s name value).2
  (∃ call, written.publishCalls = s.publishCalls ++ [call] ∧ call.topic = name ∧
      parseDouble call.payload = some value) ∧
    ∃ text, written.files.file = some text ∧ extractJsonNumberField text name = some value

/-- The entry of a saved text under a name of the store. -/
theorem extractJsonNumberField_saveText {store : StateStore} {name : Bytes} {value : Double}
    (h : store.lookup name = some value) :
    extractJsonNumberField (saveText store.snapshot) name = reread value := by
  unfold SortedMap.lookup at h
  obtain ⟨item, hfind, hvalue⟩ := Option.map_eq_some_iff.mp h
  have htoken : (store.snapshot.map fun item => (item.1, formatDouble item.2)).find?
      (fun kv => decide (kv.1 = name)) = some (item.1, formatDouble item.2) := by
    have hitem : store.entries.find? (fun item => decide (item.1 = name)) = some item := by
      convert hfind
    rw [List.find?_map]
    exact congrArg (Option.map _) hitem
  unfold extractJsonNumberField
  rw [tokenizeFlatObject_saveText]
  simp only [Option.bind_eq_bind, Option.bind_some, htoken]
  rw [hvalue]
  rfl

/-- A successful write returns exactly when the text of its value does. -/
theorem writeReturns_iff {cfg : Config} {env : Surroundings} (hcfg : cfg.stateEnabled = true)
    (hsave : env.saveIo = .succeeds) (s : ServerState) (name : Bytes) (value : Double) :
    WriteReturns cfg env s name value ↔ reread value = some value := by
  have hfile : (handleMetricWrite cfg env s name value).2.files.file =
      some (saveText (s.store.set name value).snapshot) := by
    simp [handleMetricWrite, ServerState.publish, saveState, hcfg, hsave, save]
  have hentry := extractJsonNumberField_saveText
    (show (s.store.set name value).lookup name = some value from
      SortedMap.lookup_insert_self s.store name value)
  constructor
  · intro h
    obtain ⟨-, text, htext, hvalue⟩ := h
    rw [hfile, Option.some.injEq] at htext
    rw [← htext, hentry] at hvalue
    exact hvalue
  · intro h
    refine ⟨⟨metricWriteCall cfg name value, ?_, rfl, h⟩, _, hfile, hentry.trans h⟩
    simp only [handleMetricWrite, ServerState.publish, saveState, hcfg, if_true]

/-- **Which integers survive.**  An integer up to `2⁵³` written through PUT
comes back unchanged from the published payload and from the state file exactly
when it has at most nine significant digits. -/
theorem writeReturns_ofInt_iff {cfg : Config} {env : Surroundings}
    (hcfg : cfg.stateEnabled = true) (hsave : env.saveIo = .succeeds) (s : ServerState)
    (name : Bytes) {n : Int} (hn : n.natAbs ≤ 2 ^ 53) :
    WriteReturns cfg env s name (ofInt n) ↔ NineDigits n := by
  rw [writeReturns_iff hcfg hsave]
  exact parseDouble_formatDouble_ofInt_eq_iff hn

/-- A nine-digit byte count survives. -/
theorem writeReturns_nineDigits :
    WriteReturns {} quietSurroundings (oneEntry (ascii "a") 1) (ascii "a")
      (ofInt 123456789000) := by
  rw [writeReturns_ofInt_iff rfl rfl _ _ (by decide)]
  decide

/-- **A ten-digit integer is altered**: 1234567891 is published and saved as
`1.23456789e+09`. -/
theorem write_alters_integer :
    ¬ ∀ n : Int, n.natAbs ≤ 2 ^ 53 →
      WriteReturns {} quietSurroundings (oneEntry (ascii "a") 1) (ascii "a") (ofInt n) := by
  intro hclaim
  have hreturns := hclaim 1234567891 (by decide)
  rw [writeReturns_iff rfl rfl] at hreturns
  exact absurd hreturns (by decide +kernel)

end Nshmqtt
