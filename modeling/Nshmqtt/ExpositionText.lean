import Nshmqtt.FloatSyntax

/-!
# Reading the Prometheus text format

A text is a list of lines: `# HELP` and `# TYPE` lines, samples `name{label="value",...} value`
whose value is a float, other comments and empty lines.  The lines of one name stand together, its
`# HELP` and `# TYPE` in front of its samples, and no two of its samples have the same labels.

* `reads_line`, `Reads.append` : written lines are read back one by one, whatever follows;
* `spoils_line`, `Reads.spoils` : one malformed line makes the whole text malformed;
* `collectBefore_flatMap` : the lines of families are gathered to these families again;
* `collectBefore_eq_none` : a name that occurs again further down is refused;
* `readText_of_shows`, `isSome_readText_append` : so a written text is read back, and two of them
  behind each other exactly when they have no name in common.
-/

namespace ExpositionText

open ByteStrings DecimalText

/-- What is behind the word at the start, if it is there. -/
def behind (word s : Bytes) : Option Bytes :=
  if word.isPrefixOf s then some (s.drop word.length) else none

theorem behind_append (word rest : Bytes) : behind word (word ++ rest) = some rest := by
  rw [behind, if_pos (List.isPrefixOf_iff_prefix.mpr (List.prefix_append _ _)), List.drop_left]

def startsName (c : UInt8) : Bool :=
  (97 ≤ c && c ≤ 122) || (65 ≤ c && c ≤ 90) || c == 95 || c == colon

def inName (c : UInt8) : Bool := startsName c || isdigit c

/-- A name, up to the first byte that cannot be in one, and the rest. -/
def readName : Bytes → Option (Bytes × Bytes)
  | [] => none
  | c :: rest =>
      if startsName c then some (c :: rest.takeWhile inName, rest.dropWhile inName) else none

structure IsName (name : Bytes) : Prop where
  nonempty : name ≠ []
  start : ∀ c ∈ name.head?, startsName c = true
  bytes : ∀ c ∈ name, inName c = true

/-- A name is read up to a byte that ends it. -/
theorem readName_text {name rest : Bytes} (h : IsName name)
    (hrest : ∀ c ∈ rest.head?, inName c = false) : readName (name ++ rest) = some (name, rest) := by
  have hnone : rest.takeWhile inName = [] ∧ rest.dropWhile inName = rest := by
    cases rest with
    | nil => exact ⟨rfl, rfl⟩
    | cons c rest =>
        have hc : inName c ≠ true := Bool.eq_false_iff.mp (hrest c rfl)
        exact ⟨List.takeWhile_cons_of_neg hc, List.dropWhile_cons_of_neg hc⟩
  obtain ⟨htake, hdrop⟩ := hnone
  cases name with
  | nil => exact absurd rfl h.nonempty
  | cons c name =>
      have hname : ∀ d ∈ name, inName d = true := (List.forall_mem_cons.mp h.bytes).2
      rw [List.cons_append, readName, if_pos (h.start c rfl),
        List.takeWhile_append_of_pos hname, List.dropWhile_append_of_pos hname, htake, hdrop,
        List.append_nil]

/-- What the byte behind a backslash stands for. -/
def unescape (c : UInt8) : Option UInt8 :=
  if c = quote ∨ c = backslash then some c
  else if c = 110 then some newline
  else none

/-- The value in quotes, and what is behind the closing quote; `escaped` behind a backslash. -/
def readQuoted : Bool → Bytes → Option (Bytes × Bytes)
  | _, [] => none
  | true, c :: rest =>
      (unescape c).bind fun d => (readQuoted false rest).map fun found => (d :: found.1, found.2)
  | false, c :: rest =>
      if c = quote then some ([], rest)
      else if c = backslash then readQuoted true rest
      else (readQuoted false rest).map fun found => (c :: found.1, found.2)

/-- A value without quotes and backslashes stands for itself. -/
theorem readQuoted_text {value : Bytes} (h : ∀ c ∈ value, c ≠ quote ∧ c ≠ backslash)
    (rest : Bytes) : readQuoted false (value ++ quote :: rest) = some (value, rest) := by
  induction value with
  | nil => rw [List.nil_append, readQuoted, if_pos rfl]
  | cons c value ih =>
      rw [List.forall_mem_cons] at h
      obtain ⟨⟨hquote, hbackslash⟩, hvalue⟩ := h
      rw [List.cons_append, readQuoted, if_neg hquote, if_neg hbackslash, ih hvalue]
      rfl

abbrev Label := Bytes × Bytes

/-- The labels up to the closing brace, and the rest. -/
def readLabels : Nat → Bytes → Option (List Label × Bytes)
  | 0, _ => none
  | fuel + 1, s => do
      let (name, rest) ← readName s
      let rest ← behind [equals, quote] rest
      let (value, rest) ← readQuoted false rest
      match rest with
      | comma :: rest =>
          let (labels, rest) ← readLabels fuel rest
          some ((name, value) :: labels, rest)
      | closeBrace :: rest => some ([(name, value)], rest)
      | _ => none

/-- A single label is read up to the brace. -/
theorem readLabels_single {name value : Bytes} (hname : IsName name)
    (hvalue : ∀ c ∈ value, c ≠ quote ∧ c ≠ backslash) (fuel : Nat) (rest : Bytes) :
    readLabels (fuel + 1) (name ++ ([equals, quote] ++ (value ++ quote :: closeBrace :: rest))) =
      some ([(name, value)], rest) := by
  have hequals : ∀ c ∈ ([equals, quote] ++ (value ++ quote :: closeBrace :: rest)).head?,
      inName c = false := by
    intro c hc
    cases Option.some.inj hc
    rfl
  simp only [readLabels, readName_text hname hequals, behind_append,
    readQuoted_text hvalue (closeBrace :: rest), Option.bind_eq_bind, Option.bind_some]
  rfl

inductive Kind
  | counter | gauge | histogram | summary | untyped
  deriving DecidableEq

def Kind.text : Kind → Bytes
  | .counter => ascii "counter"
  | .gauge => ascii "gauge"
  | .histogram => ascii "histogram"
  | .summary => ascii "summary"
  | .untyped => ascii "untyped"

def readKind (text : Bytes) : Option Kind :=
  [Kind.counter, .gauge, .histogram, .summary, .untyped].find? fun kind => kind.text == text

theorem readKind_text (kind : Kind) : readKind kind.text = some kind := by
  cases kind <;> decide +kernel

structure Sample where
  labels : List Label
  value : Bytes
  deriving DecidableEq

inductive Line
  /-- An empty line or a comment. -/
  | ignored
  | help (name text : Bytes)
  | kind (name : Bytes) (kind : Kind)
  | sample (name : Bytes) (sample : Sample)
  deriving DecidableEq

/-- One float behind the blank. -/
def readValue (s : Bytes) : Option Bytes := do
  let value ← behind [blank] s
  if (parseFloat value).isSome then some value else none

/-- A value is read when it is a float. -/
theorem readValue_text (value : Bytes) :
    readValue (blank :: value) = if (parseFloat value).isSome then some value else none := by
  have hbehind : behind [blank] (blank :: value) = some value := behind_append [blank] value
  simp only [readValue, hbehind, Option.bind_eq_bind, Option.bind_some]

def readSample (line : Bytes) : Option Line := do
  let (name, rest) ← readName line
  if rest.head? = some openBrace then
    let (labels, rest) ← readLabels rest.length rest.tail
    let value ← readValue rest
    some (.sample name ⟨labels, value⟩)
  else
    let value ← readValue rest
    some (.sample name ⟨[], value⟩)

def readHelp (rest : Bytes) : Option Line := do
  let (name, rest) ← readName rest
  let text ← behind [blank] rest
  some (.help name text)

def readType (rest : Bytes) : Option Line := do
  let (name, rest) ← readName rest
  let text ← behind [blank] rest
  let kind ← readKind text
  some (.kind name kind)

/-- What a line says, `none` if it is malformed. -/
def readLine (line : Bytes) : Option Line :=
  if line.head? = some hash then
    match behind (ascii "# HELP ") line with
    | some rest => readHelp rest
    | none =>
        match behind (ascii "# TYPE ") line with
        | some rest => readType rest
        | none => some .ignored
  else if line = [] then some .ignored
  else readSample line

/-- A name ends before a byte that cannot be in one. -/
theorem inName_of_head {c : UInt8} {rest : Bytes} (h : inName c = false) :
    ∀ d ∈ (c :: rest).head?, inName d = false := by
  intro d hd
  cases Option.some.inj hd
  exact h

section Written

variable {name : Bytes}

/-- A help line. -/
theorem readLine_help (h : IsName name) (text : Bytes) :
    readLine (ascii "# HELP " ++ (name ++ blank :: text)) = some (.help name text) := by
  have hhash : (ascii "# HELP " ++ (name ++ blank :: text)).head? = some hash := rfl
  have hblank : behind [blank] (blank :: text) = some text := behind_append [blank] text
  rw [readLine, if_pos hhash, behind_append]
  simp only [readHelp, readName_text h (inName_of_head (c := blank) rfl), hblank,
    Option.bind_eq_bind, Option.bind_some]

/-- A type line. -/
theorem readLine_type (h : IsName name) (kind : Kind) :
    readLine (ascii "# TYPE " ++ (name ++ blank :: kind.text)) = some (.kind name kind) := by
  have hblank : behind [blank] (blank :: kind.text) = some kind.text :=
    behind_append [blank] kind.text
  have hhash : (ascii "# TYPE " ++ (name ++ blank :: kind.text)).head? = some hash := rfl
  have hhelp : ∀ rest, behind (ascii "# HELP ") (ascii "# TYPE " ++ rest) = none := fun _ => rfl
  rw [readLine, if_pos hhash, hhelp, behind_append]
  simp only [readType, readName_text h (inName_of_head (c := blank) rfl), hblank, readKind_text,
    Option.bind_eq_bind, Option.bind_some]

/-- A line that starts with a name is a sample. -/
theorem readLine_name (h : IsName name) (rest : Bytes) :
    readLine (name ++ rest) = readSample (name ++ rest) := by
  cases name with
  | nil => exact absurd rfl h.nonempty
  | cons c name =>
      have hc : c ≠ hash := by
        intro heq
        have hstart := h.start c rfl
        rw [heq] at hstart
        exact absurd hstart (by decide)
      have hhash : (c :: name ++ rest).head? ≠ some hash := fun heq => hc (Option.some.inj heq)
      have hnonempty : c :: name ++ rest ≠ [] := List.cons_ne_nil _ _
      rw [readLine, if_neg hhash, if_neg hnonempty]

/-- A sample without labels, with whatever stands in the place of its value. -/
theorem readLine_value (h : IsName name) (value : Bytes) :
    readLine (name ++ blank :: value) =
      if (parseFloat value).isSome then some (.sample name ⟨[], value⟩) else none := by
  have hhead : (blank :: value).head? ≠ some openBrace := by
    intro heq
    exact absurd (Option.some.inj heq) (by decide)
  rw [readLine_name h]
  simp only [readSample, readName_text h (inName_of_head (c := blank) rfl), hhead, if_false,
    readValue_text, Option.bind_eq_bind, Option.bind_some]
  split_ifs <;> rfl

/-- A sample with a label. -/
theorem readLine_labelled (h : IsName name) {label text value : Bytes} (hlabel : IsName label)
    (htext : ∀ c ∈ text, c ≠ quote ∧ c ≠ backslash) (hvalue : (parseFloat value).isSome = true) :
    readLine (name ++ openBrace :: (label ++ ([equals, quote] ++
      (text ++ quote :: closeBrace :: blank :: value)))) =
        some (.sample name ⟨[(label, text)], value⟩) := by
  rw [readLine_name h]
  simp only [readSample, readName_text h (inName_of_head (c := openBrace) rfl), List.head?_cons,
    if_true, List.tail_cons, List.length_cons, readLabels_single hlabel htext,
    readValue_text, hvalue, Option.bind_eq_bind, Option.bind_some]

end Written

/-- The lines of a text whose first line started with `line`; every line is ended. -/
def readFrom (line : Bytes) : Bytes → Option (List Line)
  | [] => if line = [] then some [] else none
  | c :: rest =>
      if c = newline then (readLine line).bind fun item => (readFrom [] rest).map (item :: ·)
      else readFrom (line ++ [c]) rest

def readLines (text : Bytes) : Option (List Line) := readFrom [] text

/-- A text of whole lines that are read as the given ones. -/
def Reads (text : Bytes) (lines : List Line) : Prop :=
  ∀ rest, readLines (text ++ rest) = (readLines rest).map (lines ++ ·)

/-- Texts that are read can be put one behind the other. -/
theorem Reads.append {text text' : Bytes} {lines lines' : List Line} (h : Reads text lines)
    (h' : Reads text' lines') : Reads (text ++ text') (lines ++ lines') := by
  intro rest
  rw [List.append_assoc, h, h', Option.map_map]
  congr 1
  funext later
  exact (List.append_assoc _ _ _).symm

theorem reads_nil : Reads [] [] := by
  intro rest
  simp

/-- A whole text that is read has its lines. -/
theorem Reads.readLines {text : Bytes} {lines : List Line} (h : Reads text lines) :
    readLines text = some lines := by
  have hnil := h []
  rw [List.append_nil] at hnil
  rw [hnil]
  exact congrArg some (List.append_nil lines)

/-- A line is read when its end was reached. -/
theorem readFrom_text {more : Bytes} (h : newline ∉ more) (line rest : Bytes) :
    readFrom line (more ++ newline :: rest) =
      (readLine (line ++ more)).bind fun item => (readFrom [] rest).map (item :: ·) := by
  induction more generalizing line with
  | nil => rw [List.nil_append, readFrom, if_pos rfl, List.append_nil]
  | cons c more ih =>
      rw [List.mem_cons, not_or] at h
      rw [List.cons_append, readFrom, if_neg (Ne.symm h.1), ih h.2, List.append_assoc]
      rfl

/-- A text of one line. -/
theorem reads_line {line : Bytes} {item : Line} (hline : newline ∉ line)
    (h : readLine line = some item) : Reads (line ++ [newline]) [item] := by
  intro rest
  rw [List.append_assoc, ExpositionText.readLines]
  exact (readFrom_text hline [] rest).trans (by rw [List.nil_append, h]; rfl)

/-- A text that makes whatever it stands in front of malformed. -/
def Spoils (text : Bytes) : Prop := ∀ rest, readLines (text ++ rest) = none

/-- A malformed line behind lines that are read. -/
theorem Reads.spoils {text bad : Bytes} {lines : List Line} (h : Reads text lines)
    (hbad : Spoils bad) : Spoils (text ++ bad) := by
  intro rest
  rw [List.append_assoc, h, hbad]
  rfl

/-- What spoils a text spoils every longer one. -/
theorem Spoils.append {text : Bytes} (h : Spoils text) (more : Bytes) : Spoils (text ++ more) := by
  intro rest
  rw [List.append_assoc]
  exact h _

/-- A line that cannot be read spoils what follows. -/
theorem spoils_line {line : Bytes} (hline : newline ∉ line) (h : readLine line = none) :
    Spoils (line ++ [newline]) := by
  intro rest
  rw [List.append_assoc, ExpositionText.readLines]
  exact (readFrom_text hline [] rest).trans (by rw [List.nil_append, h]; rfl)

structure Family where
  name : Bytes
  help : Option Bytes
  kind : Option Kind
  samples : List Sample
  deriving DecidableEq

def names (families : List Family) : List Bytes := families.map Family.name

/-- Change the family of the line, which is the first one or a new one. -/
def extend (name : Bytes) (change : Family → Option Family) (families : List Family) :
    Option (List Family) :=
  match families.head? with
  | none => (change ⟨name, none, none, []⟩).map fun f => [f]
  | some first =>
      if first.name = name then (change first).map fun f => f :: families.tail
      else if name ∈ names families then none
      else (change ⟨name, none, none, []⟩).map fun f => f :: families

/-- Put a line in front of the families of the lines behind it. -/
def addLine (families : List Family) : Line → Option (List Family)
  | .ignored => some families
  | .help name text =>
      extend name (fun f => if f.help = none then some { f with help := some text } else none)
        families
  | .kind name kind =>
      extend name (fun f => if f.kind = none then some { f with kind := some kind } else none)
        families
  | .sample name sample =>
      extend name (fun f =>
        -- the lines about a name stand in front of its samples
        if f.help = none ∧ f.kind = none ∧ sample.labels ∉ f.samples.map Sample.labels then
          some { f with samples := sample :: f.samples }
        else none) families

/-- The families of some lines in front of others that are gathered already. -/
def collectBefore (families : List Family) : List Line → Option (List Family)
  | [] => some families
  | line :: rest => (collectBefore families rest).bind fun later => addLine later line

/-- **The reader of a text**: its families in order, `none` if it is not well formed. -/
def readText (text : Bytes) : Option (List Family) := (readLines text).bind (collectBefore [])

/-- A spoiled text is not accepted. -/
theorem Spoils.readText {text : Bytes} (h : Spoils text) : readText text = none := by
  have hnone := h []
  rw [List.append_nil] at hnone
  rw [ExpositionText.readText, hnone]
  rfl

variable {families : List Family}

/-- The lines of a later part are collected first. -/
theorem collectBefore_append (families : List Family) (lines lines' : List Line) :
    collectBefore families (lines ++ lines') =
      (collectBefore families lines').bind fun later => collectBefore later lines := by
  induction lines with
  | nil => simp [collectBefore]
  | cons line lines ih => rw [List.cons_append, collectBefore, ih, Option.bind_assoc]; rfl

/-- A new name is put in front. -/
theorem extend_new {name : Bytes} (change : Family → Option Family) (h : name ∉ names families) :
    extend name change families =
      (change ⟨name, none, none, []⟩).map fun f => f :: families := by
  cases families with
  | nil => rfl
  | cons first rest =>
      have hfirst : first.name ≠ name := by
        intro heq
        exact h (heq ▸ List.mem_cons_self)
      simp only [extend, List.head?_cons, hfirst, if_false, h]

section First

variable (name : Bytes) (kind : Option Kind) (samples : List Sample)

/-- A line in front of the samples of its name. -/
theorem addLine_help (text : Bytes) :
    addLine (⟨name, none, kind, samples⟩ :: families) (.help name text) =
      some (⟨name, some text, kind, samples⟩ :: families) := by
  simp [addLine, extend]

/-- A type belongs to the family whose samples follow it. -/
theorem addLine_kind (k : Kind) :
    addLine (⟨name, none, none, samples⟩ :: families) (.kind name k) =
      some (⟨name, none, some k, samples⟩ :: families) := by
  simp [addLine, extend]

/-- A sample belongs to the family that is under way, if its labels are new. -/
theorem addLine_sample {sample : Sample} (h : sample.labels ∉ samples.map Sample.labels) :
    addLine (⟨name, none, none, samples⟩ :: families) (.sample name sample) =
      some (⟨name, none, none, sample :: samples⟩ :: families) := by
  simp only [addLine, extend, List.head?_cons, if_true, List.tail_cons, h, not_false_eq_true,
    and_self, Option.map_some]

end First

/-- The lines of a family. -/
def Family.lines (f : Family) : List Line :=
  (f.help.map (Line.help f.name)).toList ++ (f.kind.map (Line.kind f.name)).toList ++
    f.samples.map (Line.sample f.name)

/-- A family that shows, with different labels at different samples. -/
structure Family.Sound (f : Family) : Prop where
  shows : f.samples ≠ []
  labels : (f.samples.map Sample.labels).Nodup

/-- The samples of one name make a family. -/
theorem collectBefore_samples {name : Bytes} {samples : List Sample} (hsamples : samples ≠ [])
    (hlabels : (samples.map Sample.labels).Nodup) (hname : name ∉ names families) :
    collectBefore families (samples.map (Line.sample name)) =
      some (⟨name, none, none, samples⟩ :: families) := by
  induction samples with
  | nil => exact absurd rfl hsamples
  | cons sample rest ih =>
      rw [List.map_cons, List.nodup_cons] at hlabels
      rw [List.map_cons, collectBefore]
      cases rest with
      | nil => simp [collectBefore, addLine, extend_new _ hname]
      | cons second rest =>
          rw [ih (List.cons_ne_nil _ _) hlabels.2, Option.bind_some]
          exact addLine_sample name _ hlabels.1

/-- **The lines of a family with a new name are gathered to that family.** -/
theorem collectBefore_lines {f : Family} (h : f.Sound) (hname : f.name ∉ names families) :
    collectBefore families f.lines = some (f :: families) := by
  obtain ⟨name, help, kind, samples⟩ := f
  have hsamples := collectBefore_samples h.shows h.labels hname
  have hkind : collectBefore families ((kind.map (Line.kind name)).toList ++
      samples.map (Line.sample name)) = some (⟨name, none, kind, samples⟩ :: families) := by
    rw [collectBefore_append, hsamples, Option.bind_some]
    cases kind with
    | none => rfl
    | some kind => exact addLine_kind name samples kind
  rw [Family.lines, List.append_assoc, collectBefore_append, hkind, Option.bind_some]
  cases help with
  | none => rfl
  | some help => exact addLine_help name kind samples help

/-- **Whole families** are collected as they are, while their names are new. -/
theorem collectBefore_flatMap {more : List Family} (hsound : ∀ f ∈ more, f.Sound)
    (hnodup : (names more).Nodup) (hdisjoint : ∀ name ∈ names more, name ∉ names families) :
    collectBefore families (more.flatMap Family.lines) = some (more ++ families) := by
  induction more with
  | nil => rfl
  | cons f more ih =>
      rw [List.forall_mem_cons] at hsound
      rw [names, List.map_cons, List.nodup_cons] at hnodup
      rw [names, List.map_cons, List.forall_mem_cons] at hdisjoint
      have hname : f.name ∉ names (more ++ families) := by
        rw [names, List.map_append, List.mem_append, not_or]
        exact ⟨hnodup.1, hdisjoint.1⟩
      rw [List.flatMap_cons, collectBefore_append, ih hsound.2 hnodup.2 hdisjoint.2,
        Option.bind_some]
      exact collectBefore_lines hsound.1 hname

/-- A sample whose name occurs further down, or in front of one with its labels. -/
theorem addLine_eq_none {name : Bytes} {sample : Sample} (hname : name ∈ names families)
    (hfirst : ∀ first ∈ families.head?, first.name = name →
      sample.labels ∈ first.samples.map Sample.labels) :
    addLine families (.sample name sample) = none := by
  cases families with
  | nil => cases hname
  | cons first rest =>
      by_cases heq : first.name = name
      · have hlabels := hfirst first rfl heq
        simp [addLine, extend, heq, hlabels]
      · simp only [addLine, extend, List.head?_cons, heq, if_false, hname, if_true]

/-- The lines of such a family are refused at the last sample, which is the first to be put. -/
theorem collectBefore_lines_eq_none {f : Family} (h : f.Sound) (hname : f.name ∈ names families)
    (hfirst : ∀ first ∈ families.head?, first.name = f.name →
      f.samples.getLast?.map Sample.labels ∈ first.samples.map (some ∘ Sample.labels)) :
    collectBefore families f.lines = none := by
  obtain ⟨before, sample, hsamples⟩ : ∃ before sample, f.samples = before ++ [sample] :=
    ⟨_, _, (List.dropLast_append_getLast h.shows).symm⟩
  have hclash : addLine families (.sample f.name sample) = none := by
    apply addLine_eq_none hname
    intro first hmem heq
    have hlabels := hfirst first hmem heq
    rw [hsamples, List.getLast?_append_of_ne_nil _ (List.cons_ne_nil _ _)] at hlabels
    simpa using hlabels
  have hlast : collectBefore families [Line.sample f.name sample] = none := by
    rw [collectBefore, collectBefore, Option.bind_some, hclash]
  rw [Family.lines, hsamples, List.map_append, ← List.append_assoc, collectBefore_append,
    List.map_singleton, hlast]
  rfl

/-- **A family whose name occurs again further down is refused.** -/
theorem collectBefore_eq_none {more : List Family} (hsound : ∀ f ∈ more, f.Sound)
    (hnodup : (names more).Nodup) (hmeet : ∃ name ∈ names more, name ∈ names families)
    (hlast : ∀ f ∈ more.getLast?, ∀ first ∈ families.head?, first.name = f.name →
      f.samples.getLast?.map Sample.labels ∈ first.samples.map (some ∘ Sample.labels)) :
    collectBefore families (more.flatMap Family.lines) = none := by
  induction more with
  | nil =>
      obtain ⟨name, hname, -⟩ := hmeet
      cases hname
  | cons f more ih =>
      rw [List.forall_mem_cons] at hsound
      rw [names, List.map_cons, List.nodup_cons] at hnodup
      rw [List.flatMap_cons, collectBefore_append]
      by_cases hmore : ∃ name ∈ names more, name ∈ names families
      · have hnonempty : more ≠ [] := by
          intro hnil
          obtain ⟨name, hname, -⟩ := hmore
          rw [hnil] at hname
          cases hname
        rw [List.getLast?_cons_of_ne_nil hnonempty] at hlast
        rw [ih hsound.2 hnodup.2 hmore hlast]
        rfl
      · have hdisjoint : ∀ name ∈ names more, name ∉ names families :=
          fun name hname hmem => hmore ⟨name, hname, hmem⟩
        rw [collectBefore_flatMap hsound.2 hnodup.2 hdisjoint, Option.bind_some]
        -- it is the first family whose name occurs again
        have hname : f.name ∈ names (more ++ families) := by
          obtain ⟨name, hname, hmem⟩ := hmeet
          rcases List.mem_cons.mp hname with rfl | hname
          · rw [names, List.map_append]
            exact List.mem_append_right _ hmem
          · exact absurd hmem (hdisjoint name hname)
        apply collectBefore_lines_eq_none hsound.1 hname
        intro first hfirst heq
        cases more with
        | nil => exact hlast f rfl first hfirst heq
        | cons second more =>
            cases Option.some.inj hfirst
            exact absurd (heq ▸ List.mem_cons_self) hnodup.1

def Family.withoutHelp (f : Family) : Family := { f with help := none }

/-- A text of the given families; the lines about names may say any help text. -/
def Shows (text : Bytes) (shown : List Family) : Prop :=
  ∃ (families : List Family) (lines : List Line), Reads text lines ∧
    lines.filter (· ≠ .ignored) = families.flatMap Family.lines ∧
      families.map Family.withoutHelp = shown

theorem shows_nil : Shows [] [] := ⟨[], [], reads_nil, rfl, rfl⟩

/-- Two texts show the families of both. -/
theorem Shows.append {text text' : Bytes} {shown shown' : List Family} (h : Shows text shown)
    (h' : Shows text' shown') : Shows (text ++ text') (shown ++ shown') := by
  obtain ⟨families, lines, hreads, hlines, hshown⟩ := h
  obtain ⟨families', lines', hreads', hlines', hshown'⟩ := h'
  refine ⟨families ++ families', lines ++ lines', hreads.append hreads', ?_, ?_⟩
  · rw [List.filter_append, hlines, hlines', List.flatMap_append]
  · rw [List.map_append, hshown, hshown']

/-- A malformed line behind such a text. -/
theorem Shows.spoils {text bad : Bytes} {shown : List Family} (h : Shows text shown)
    (hbad : Spoils bad) : Spoils (text ++ bad) := by
  obtain ⟨families, lines, hreads, -, -⟩ := h
  exact hreads.spoils hbad

/-- The families shown, by another name. -/
theorem Shows.cast {text : Bytes} {shown shown' : List Family} (h : Shows text shown)
    (heq : shown = shown') : Shows text shown' :=
  heq ▸ h

/-- A comment shows nothing. -/
theorem shows_comment {line : Bytes} (hline : newline ∉ line) (h : readLine line = some .ignored) :
    Shows (line ++ [newline]) [] :=
  ⟨[], [.ignored], reads_line hline h, rfl, rfl⟩

/-- Lines that are ignored are not collected. -/
theorem collectBefore_filter (families : List Family) (lines : List Line) :
    collectBefore families (lines.filter (· ≠ .ignored)) = collectBefore families lines := by
  induction lines with
  | nil => rfl
  | cons line lines ih =>
      by_cases hline : line = .ignored
      · rw [hline, List.filter_cons_of_neg (by simp), ih, collectBefore]
        cases collectBefore families lines <;> rfl
      · rw [List.filter_cons_of_pos (by simpa using hline), collectBefore, collectBefore, ih]

section Gathered

variable {text text' : Bytes} {shown shown' : List Family}

/-- What the reader does with such a text, in front of families already gathered. -/
theorem Shows.gathers (h : Shows text shown) (hsound : ∀ f ∈ shown, f.Sound) :
    ∃ (families : List Family) (lines : List Line), Reads text lines ∧
      families.map Family.withoutHelp = shown ∧ names families = names shown ∧
      (∀ f ∈ families, f.Sound) ∧
      ∀ later, collectBefore later lines = collectBefore later (families.flatMap Family.lines) := by
  obtain ⟨families, lines, hreads, hlines, rfl⟩ := h
  refine ⟨families, lines, hreads, rfl, by simp [names, Family.withoutHelp], ?_, ?_⟩
  · intro f hf
    have hshown := hsound _ (List.mem_map_of_mem hf)
    exact ⟨hshown.shows, hshown.labels⟩
  · intro later
    rw [← collectBefore_filter, hlines]

/-- **A written text is read back**, apart from the help texts. -/
theorem readText_of_shows (h : Shows text shown) (hsound : ∀ f ∈ shown, f.Sound)
    (hnodup : (names shown).Nodup) :
    ∃ families, readText text = some families ∧
      families.map Family.withoutHelp = shown := by
  obtain ⟨families, lines, hreads, hshown, hnames, hfamilies, hgather⟩ := h.gathers hsound
  refine ⟨families, ?_, hshown⟩
  rw [readText, hreads.readLines, Option.bind_some, hgather]
  have hcollect := @collectBefore_flatMap [] families hfamilies (hnames ▸ hnodup)
    fun _ _ => List.not_mem_nil
  rwa [List.append_nil] at hcollect

/-- Two texts with no name in common are read back one behind the other. -/
theorem readText_append (h : Shows text shown) (h' : Shows text' shown')
    (hsound : ∀ f ∈ shown, f.Sound) (hsound' : ∀ f ∈ shown', f.Sound)
    (hnodup : (names shown).Nodup) (hnodup' : (names shown').Nodup)
    (hdisjoint : ∀ name ∈ names shown, name ∉ names shown') :
    ∃ families, readText (text ++ text') = some families ∧
      families.map Family.withoutHelp = shown ++ shown' := by
  refine readText_of_shows (h.append h') (List.forall_mem_append.mpr ⟨hsound, hsound'⟩) ?_
  rw [names, List.map_append]
  exact List.nodup_append.mpr ⟨hnodup, hnodup', fun name hname name' hname' heq =>
    hdisjoint name hname (heq ▸ hname')⟩

/-- **Two texts behind each other** are well formed exactly when they have no name in common. -/
theorem isSome_readText_append (h : Shows text shown) (h' : Shows text' shown')
    (hsound : ∀ f ∈ shown, f.Sound) (hsound' : ∀ f ∈ shown', f.Sound)
    (hnodup : (names shown).Nodup) (hnodup' : (names shown').Nodup)
    (hlast : ∀ f ∈ shown.getLast?, ∀ first ∈ shown'.head?,
      f.samples.getLast?.map Sample.labels ∈ first.samples.map (some ∘ Sample.labels)) :
    (readText (text ++ text')).isSome ↔ ∀ name ∈ names shown, name ∉ names shown' := by
  constructor
  · intro hsome name hname hname'
    obtain ⟨families, lines, hreads, hshown, hnames, hfamilies, hgather⟩ := h.gathers hsound
    obtain ⟨families', lines', hreads', hshown', hnames', hfamilies', hgather'⟩ :=
      h'.gathers hsound'
    have hlater : collectBefore [] lines' = some families' := by
      have hcollect := @collectBefore_flatMap [] families' hfamilies' (hnames' ▸ hnodup')
        fun _ _ => List.not_mem_nil
      rwa [List.append_nil, ← hgather'] at hcollect
    have hnone : collectBefore families' lines = none := by
      rw [hgather]
      apply collectBefore_eq_none hfamilies (hnames ▸ hnodup)
      · exact ⟨name, hnames ▸ hname, hnames' ▸ hname'⟩
      · intro f hf first hfirst _
        have hfirst' : families'.head?.map Family.withoutHelp = some first.withoutHelp := by
          rw [hfirst]
          rfl
        have hf' : families.getLast?.map Family.withoutHelp = some f.withoutHelp := by
          rw [hf]
          rfl
        rw [← List.head?_map, hshown'] at hfirst'
        rw [← List.getLast?_map, hshown] at hf'
        exact hlast _ hf' first.withoutHelp hfirst'
    rw [readText, (hreads.append hreads').readLines, Option.bind_some, collectBefore_append, hlater,
      Option.bind_some, hnone] at hsome
    cases hsome
  · intro hdisjoint
    obtain ⟨families, hread, -⟩ :=
      readText_append h h' hsound hsound' hnodup hnodup' hdisjoint
    rw [hread]
    rfl

end Gathered

section Written

variable {name : Bytes}

theorem IsName.newline_not_mem (h : IsName name) : newline ∉ name := by
  intro hmem
  exact absurd (h.bytes _ hmem) (by decide)

theorem Kind.newline_not_mem (kind : Kind) : newline ∉ kind.text := by
  cases kind <;> decide

/-- The lines about a name and then its samples. -/
theorem shows_family (h : IsName name) {help : Bytes} (hhelp : newline ∉ help) (kind : Kind)
    {samples : List Sample} {text : Bytes} (htext : Reads text (samples.map (Line.sample name))) :
    Shows (ascii "# HELP " ++ (name ++ blank :: help) ++ [newline] ++
      (ascii "# TYPE " ++ (name ++ blank :: kind.text) ++ [newline]) ++ text)
      [⟨name, none, some kind, samples⟩] := by
  have hword : newline ∉ ascii "# HELP " ∧ newline ∉ ascii "# TYPE " := by decide
  have hblank : newline ≠ blank := by decide
  have hfirst : Reads (ascii "# HELP " ++ (name ++ blank :: help) ++ [newline])
      [.help name help] :=
    reads_line (by simp [hword.1, h.newline_not_mem, hblank, hhelp]) (readLine_help h help)
  have hsecond : Reads (ascii "# TYPE " ++ (name ++ blank :: kind.text) ++ [newline])
      [.kind name kind] :=
    reads_line (by simp [hword.2, h.newline_not_mem, hblank, kind.newline_not_mem])
      (readLine_type h kind)
  refine ⟨[⟨name, some help, some kind, samples⟩], _, (hfirst.append hsecond).append htext, ?_, rfl⟩
  simp [Family.lines, List.filter_map, Function.comp_def]

/-- A float is in one line. -/
theorem newline_not_mem_float {value : Bytes} (h : (parseFloat value).isSome = true) :
    newline ∉ value :=
  fun hmem => absurd (floatByte_of_parseFloat h newline hmem) (by decide)

theorem newline_not_mem_value (h : IsName name) {value : Bytes} (hvalue : newline ∉ value) :
    newline ∉ name ++ blank :: value := by
  have hne : newline ≠ blank := by decide
  simp [h.newline_not_mem, hne, hvalue]

/-- The line of a sample without labels. -/
theorem reads_value (h : IsName name) {value : Bytes} (hvalue : (parseFloat value).isSome = true) :
    Reads (name ++ blank :: value ++ [newline]) [.sample name ⟨[], value⟩] := by
  refine reads_line (newline_not_mem_value h (newline_not_mem_float hvalue)) ?_
  rw [readLine_value h, if_pos hvalue]

/-- The line of a value that is no float. -/
theorem spoils_value (h : IsName name) {value : Bytes} (hnewline : newline ∉ value)
    (hvalue : ¬ (parseFloat value).isSome = true) :
    Spoils (name ++ blank :: value ++ [newline]) := by
  refine spoils_line (newline_not_mem_value h hnewline) ?_
  rw [readLine_value h, if_neg hvalue]

/-- The line of a sample with a label. -/
theorem reads_labelled (h : IsName name) {label text value : Bytes} (hlabel : IsName label)
    (htext : ∀ c ∈ text, c ≠ quote ∧ c ≠ backslash ∧ c ≠ newline)
    (hvalue : (parseFloat value).isSome = true) :
    Reads (name ++ openBrace :: (label ++ ([equals, quote] ++
      (text ++ quote :: closeBrace :: blank :: value))) ++ [newline])
        [.sample name ⟨[(label, text)], value⟩] := by
  have hne : newline ≠ blank ∧ newline ≠ openBrace ∧ newline ≠ equals ∧ newline ≠ quote ∧
      newline ≠ closeBrace := by decide
  have hinside : newline ∉ text := fun hmem => (htext _ hmem).2.2 rfl
  refine reads_line ?_ (readLine_labelled h hlabel (fun c hc => ⟨(htext c hc).1, (htext c hc).2.1⟩)
    hvalue)
  simp [h.newline_not_mem, hlabel.newline_not_mem, hinside, newline_not_mem_float hvalue, hne]

/-- A sample of a name that no line is about. -/
theorem shows_value (h : IsName name) {value : Bytes} (hvalue : (parseFloat value).isSome = true) :
    Shows (name ++ blank :: value ++ [newline]) [⟨name, none, none, [⟨[], value⟩]⟩] :=
  ⟨[⟨name, none, none, [⟨[], value⟩]⟩], _, reads_value h hvalue, rfl, rfl⟩

end Written

end ExpositionText
