import Nshmqtt.Metrics

/-!
# What `save` writes, `load` reads

The writer escapes names byte by byte and puts formatted values between
structural bytes.  To the reader an escaped name is a string and a formatted
value a word; the tokens of a saved text are then the names of the store with
the formatted values.
-/

namespace Nshmqtt

open ByteStrings DecimalText

theorem hexDigit_plain : ∀ n < 16, hexDigit n ≠ backslash ∧ hexDigit n ≠ quote := by
  decide

/-- The string scanner passes over an escaped byte. -/
theorem loose_escapeByte (c : UInt8) {rest : Bytes} (hrest : LooseString rest) :
    LooseString (escapeByte c ++ rest) := by
  unfold escapeByte
  split_ifs with hquote hback h8 h12 h10 h13 h9 hcontrol
  · exact .escape hrest
  · exact .escape hrest
  · exact .escape hrest
  · exact .escape hrest
  · exact .escape hrest
  · exact .escape hrest
  · exact .escape hrest
  · have hbyte : c.toNat < 256 := c.toNat_lt
    have hhigh := hexDigit_plain (c.toNat / 16) (by omega)
    have hlow := hexDigit_plain (c.toNat % 16) (Nat.mod_lt _ (by decide))
    have hdigits : LooseString (hexDigit (c.toNat / 16) :: hexDigit (c.toNat % 16) :: rest) :=
      .plain hhigh.2 hhigh.1 (.plain hlow.2 hlow.1 hrest)
    exact .escape (.plain (by decide) (by decide) (.plain (by decide) (by decide) hdigits))
  · exact .plain hquote hback hrest

/-- An escaped name ends at the quote that the writer put there. -/
theorem loose_jsonEscape (name : Bytes) : LooseString (jsonEscape name) := by
  induction name with
  | nil => exact .nil
  | cons c tail ih => exact loose_escapeByte c ih

/-- The `\u00XX` form of a control byte decodes to the byte. -/
theorem codePoint_control (c : UInt8) : c < 0x20 →
    codePoint [zeroDigit, zeroDigit, hexDigit (c.toNat / 16), hexDigit (c.toNat % 16)] =
      some c.toNat ∧ utf8 c.toNat = [c] :=
  forall_byte (p := fun c => c < 0x20 →
    codePoint [zeroDigit, zeroDigit, hexDigit (c.toNat / 16), hexDigit (c.toNat % 16)] =
      some c.toNat ∧ utf8 c.toNat = [c]) (by decide +kernel) c

/-- A plain byte is read as it is. -/
theorem jsonUnescape_plain {c : UInt8} (rest : Bytes) (hc : c ≠ backslash) :
    jsonUnescape (c :: rest) = c :: jsonUnescape rest := by
  rw [jsonUnescape.eq_def]
  simp only [if_pos hc]

/-- An escaped byte is read as what it stands for. -/
theorem jsonUnescape_escape {e : UInt8} (rest : Bytes) (he : e ≠ 117) :
    jsonUnescape (backslash :: e :: rest) = unescapeByte e :: jsonUnescape rest := by
  rw [jsonUnescape.eq_def]
  simp only [ne_eq, not_true_eq_false, if_false, he]

theorem jsonUnescape_unicode {h1 h2 h3 h4 : UInt8} {cp : Nat} (rest : Bytes)
    (hcode : codePoint [h1, h2, h3, h4] = some cp) :
    jsonUnescape (backslash :: 117 :: h1 :: h2 :: h3 :: h4 :: rest) =
      utf8 cp ++ jsonUnescape rest := by
  rw [jsonUnescape.eq_def]
  simp only [ne_eq, not_true_eq_false, if_false, if_true, hcode]

/-- **Every byte** is read back from its escape. -/
theorem jsonUnescape_escapeByte (c : UInt8) (rest : Bytes) :
    jsonUnescape (escapeByte c ++ rest) = c :: jsonUnescape rest := by
  unfold escapeByte
  split_ifs with hquote hback h8 h12 h10 h13 h9 hcontrol
  · subst hquote
    exact jsonUnescape_escape rest (by decide)
  · subst hback
    exact jsonUnescape_escape rest (by decide)
  · subst h8
    exact jsonUnescape_escape rest (by decide)
  · subst h12
    exact jsonUnescape_escape rest (by decide)
  · subst h10
    exact jsonUnescape_escape rest (by decide)
  · subst h13
    exact jsonUnescape_escape rest (by decide)
  · subst h9
    exact jsonUnescape_escape rest (by decide)
  · obtain ⟨hcode, hutf8⟩ := codePoint_control c hcontrol
    have hunicode := jsonUnescape_unicode rest hcode
    rw [hutf8] at hunicode
    exact hunicode
  · exact jsonUnescape_plain rest hback

/-- **Unescaping undoes escaping**, for every byte string. -/
theorem jsonUnescape_jsonEscape (name : Bytes) : jsonUnescape (jsonEscape name) = name := by
  induction name with
  | nil => simp [jsonEscape, jsonUnescape]
  | cons c tail ih =>
      have hcons : jsonEscape (c :: tail) = escapeByte c ++ jsonEscape tail := rfl
      rw [hcons, jsonUnescape_escapeByte, ih]

/-- The text of a double is a bare value. -/
theorem bareByte_of_formatByte (c : UInt8) : formatByte c = true →
    endsBareToken c = false ∧ c ≠ quote ∧ c ≠ openBrace ∧ c ≠ openBracket :=
  forall_byte (p := fun c => formatByte c = true →
    endsBareToken c = false ∧ c ≠ quote ∧ c ≠ openBrace ∧ c ≠ openBracket)
    (by decide +kernel) c

theorem bareByte_of_mem {v : Double} {c : UInt8} (hc : c ∈ formatDouble v) :
    endsBareToken c = false ∧ c ≠ quote ∧ c ≠ openBrace ∧ c ≠ openBracket :=
  bareByte_of_formatByte c (formatByte_formatGeneral hc)

/-- A formatted value starts with a byte that opens nothing. -/
theorem formatDouble_cons (v : Double) : ∃ c rest, formatDouble v = c :: rest ∧
    isspace c = false ∧ c ≠ quote ∧ c ≠ openBrace ∧ c ≠ openBracket := by
  cases htext : formatDouble v with
  | nil => exact absurd htext (formatGeneral_ne_nil v)
  | cons c rest =>
      have hmem : c ∈ formatDouble v := by rw [htext]; exact List.mem_cons_self
      have hspace := isspace_of_formatByte c (formatByte_formatGeneral hmem)
      exact ⟨c, rest, rfl, hspace.1, (bareByte_of_mem hmem).2⟩

/-- A formatted value is cut out whole, be it JSON or not. -/
theorem valueText_formatDouble (v : Double) : ValueText (formatDouble v) := by
  obtain ⟨c, rest, htext, -, hquote, hbrace, hbracket⟩ := formatDouble_cons v
  have hbare : ∀ d ∈ formatDouble v, endsBareToken d = false := fun d hd => (bareByte_of_mem hd).1
  rw [htext] at hbare ⊢
  exact .word hquote hbrace hbracket hbare

namespace StateStore

/-- The saved text is that of an object. -/
theorem saveText_eq_objectText (items : List (Bytes × Double)) :
    saveText items =
      objectText (items.map fun item => (jsonEscape item.1, formatDouble item.2)) := by
  have hmember : memberText = fun item =>
      quote :: (jsonEscape item.1 ++ quote :: colon :: formatDouble item.2) := by
    funext item
    simp [memberText]
  simp [saveText, objectText, hmember, Function.comp_def]

/-- **The tokens of a saved text** are the names with their formatted values. -/
theorem tokenizeFlatObject_saveText (items : List (Bytes × Double)) :
    tokenizeFlatObject (saveText items) =
      some (items.map fun item => (item.1, formatDouble item.2)) := by
  rw [saveText_eq_objectText, tokenizeFlatObject_objectText]
  · simp only [List.map_map, Function.comp_def, jsonUnescape_jsonEscape]
  · intro m hm
    obtain ⟨item, -, rfl⟩ := List.mem_map.mp hm
    exact ⟨loose_jsonEscape _, valueText_formatDouble _⟩

/-- The value that the text of `v` is read back as. -/
def reread (v : Double) : Option Double := parseDouble (formatDouble v)

/-- The names of a store with the texts of their values. -/
def texts (store : StateStore) : List (Bytes × Bytes) :=
  store.entries.map fun item => (item.1, formatDouble item.2)

/-- Reading pair after pair builds the map of the values read. -/
theorem foldlM_reread {items : List (Bytes × Double)}
    (h : ∀ item ∈ items, (reread item.2).isSome) (out : StateStore) :
    (items.map fun item => (item.1, formatDouble item.2)).foldlM
        (fun out kv => (parseDouble kv.2).map (out.insert kv.1)) out =
      some ((items.map fun item => (item.1, (reread item.2).getD item.2)).foldl
        (fun out entry => out.insert entry.1 entry.2) out) := by
  induction items generalizing out with
  | nil => rfl
  | cons item items ih =>
      obtain ⟨w, hw⟩ := Option.isSome_iff_exists.mp (h item List.mem_cons_self)
      have hparse : parseDouble (formatDouble item.2) = some w := hw
      simp only [List.map_cons, List.foldlM_cons, List.foldl_cons, hparse, hw, Option.map_some,
        Option.getD_some, Option.bind_eq_bind, Option.bind_some]
      exact ih (fun item' hitem' => h item' (List.mem_cons_of_mem _ hitem')) _

/-- **Reading a saved text** gives the names of the store, each with the value
that its text is read back as. -/
theorem parseFlatNumberObject_saveText {store : StateStore}
    (h : ∀ item ∈ store.entries, (reread item.2).isSome) :
    parseFlatNumberObject (saveText store.snapshot) =
      some (store.mapValues fun v => (reread v).getD v) := by
  have hrebuild := SortedMap.foldl_insert_entries (store.mapValues fun v => (reread v).getD v)
  unfold parseFlatNumberObject snapshot
  rw [tokenizeFlatObject_saveText]
  simp only [Option.bind_eq_bind, Option.bind_some, foldlM_reread h]
  exact congrArg some hrebuild

/-- The values are read back one by one. -/
theorem lookup_mapValues (store : StateStore) (f : Double → Double) (name : Bytes) :
    (store.mapValues f).lookup name = (store.lookup name).map f := by
  unfold SortedMap.lookup SortedMap.mapValues
  simp only [List.find?_map, Option.map_map]
  rfl

/-- One call on the store. -/
inductive StoreOp
  | set (name : Bytes) (value : Double)
  | remove (name : Bytes)

def apply (store : StateStore) : StoreOp → StateStore
  | .set name value => store.set name value
  | .remove name => (store.remove name).1

/-- The store after a sequence of calls on an empty one. -/
def runOps (ops : List StoreOp) : StateStore := ops.foldl apply SortedMap.empty

/-- **A restart keeps the store.**  After any calls, if the text of every
stored value is read back to a value of the same text, then the saved file
loads, the loaded store has the same names with the values read back, and the
rendered state is byte-identical. -/
theorem load_save (ops : List StoreOp) (path : Bytes) (files : StateFiles)
    (fresh : StateStore) (cfg : Config)
    (hreread : ∀ item ∈ (runOps ops).entries,
      ∃ w, reread item.2 = some w ∧ formatDouble w = formatDouble item.2) :
    ∃ text loaded,
      (runOps ops).save path files .succeeds = (.ok (), ⟨some text, none⟩) ∧
      fresh.load path (.contents text) = .ok loaded ∧
      loaded.keys = (runOps ops).keys ∧
      (∀ name, loaded.get name = ((runOps ops).get name).bind reread) ∧
      metricsStateBody cfg loaded = metricsStateBody cfg (runOps ops) := by
  have hsome : ∀ item ∈ (runOps ops).entries, (reread item.2).isSome := by
    intro item hitem
    obtain ⟨w, hw, -⟩ := hreread item hitem
    simp [hw]
  have hload := parseFlatNumberObject_saveText hsome
  refine ⟨saveText (runOps ops).snapshot, _, rfl, by rw [load, hload], ?_, ?_, ?_⟩
  · simp [SortedMap.keys, SortedMap.mapValues, Function.comp_def]
  · intro name
    unfold get
    rw [lookup_mapValues]
    cases hlookup : (runOps ops).lookup name with
    | none => rfl
    | some v =>
        obtain ⟨w, hw, -⟩ := hreread (name, v) ((SortedMap.mem_entries_iff _ _ _).mpr hlookup)
        simp only at hw
        simp [hw]
  · -- the rendered text reads the values through their texts, which are the same
    apply renderPrometheusStateMetrics_congr
    apply normalizeFrom_congr
    simp only [snapshot, SortedMap.mapValues, List.map_map, List.map_inj_left,
      Function.comp_apply, Prod.mk.injEq, true_and]
    intro item hitem
    obtain ⟨w, hw, htext⟩ := hreread item hitem
    rw [hw, Option.getD_some, htext]

/-- The round trip of two names, one of them with a quote, a NUL and a brace. -/
theorem load_save_escaped_name :
    let store := runOps [.set [97, quote, 0, closeBrace] (Binary64.ofInt 17), .remove [98],
      .set [99, comma] (Binary64.ofInt (-3))]
    ∃ text loaded,
      store.save (ascii "state.json") ⟨none, none⟩ .succeeds = (.ok (), ⟨some text, none⟩) ∧
      store.load (ascii "state.json") (.contents text) = .ok loaded ∧
      loaded.keys = store.keys ∧
      (∀ name, loaded.get name = (store.get name).bind reread) ∧
      metricsStateBody {} loaded = metricsStateBody {} store := by
  intro store
  refine load_save _ _ _ _ {} ?_
  have hentries : store.entries =
      [([97, quote, 0, closeBrace], Binary64.ofInt 17), ([99, comma], Binary64.ofInt (-3))] := by
    decide +kernel
  rw [show runOps _ = store from rfl, hentries]
  simp only [List.forall_mem_cons, List.not_mem_nil, false_imp_iff, implies_true, and_true]
  exact ⟨⟨Binary64.ofInt 17, by decide +kernel, rfl⟩,
    ⟨Binary64.ofInt (-3), by decide +kernel, rfl⟩⟩

end StateStore

end Nshmqtt
