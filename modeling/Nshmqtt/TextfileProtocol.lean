import Nshmqtt.MetricsReadBack
import Nshmqtt.SaveFileProtocol

/-!
# The file protocol of the textfile

`write_prometheus_textfile` renders the metrics, opens and truncates a temporary file, writes the
text into a stream, lets the stream go out of scope and renames the file.  Only the main thread
does so, again and again, and after a crash a new process begins anew.

The stream is checked once, right behind `out << text`.  What is still in its buffer then goes out
when it is destroyed, and nobody looks whether that succeeded.

* `contents_of_run` : the file holds what it held at first, or the start of a rendered text;
* `collector_reads` : if every stream gets its bytes out, the text is whole, and a collector reads
  it as the metrics of that rendering, unless one of its values is a negative NaN.
-/

namespace Nshmqtt

open ByteStrings DecimalText TransitionRuns ExpositionText

namespace TextfileProtocol

open SaveFileProtocol (FileName Files directory)

/-- The point that `write_prometheus_textfile` has reached. -/
inductive Phase
  /-- Between two calls. -/
  | idle
  /-- With its text, before the open. -/
  | rendered (r : Rendering)
  /-- In `out << text`, with so many bytes in file `n`. -/
  | writing (r : Rendering) (n written : Nat)
  /-- Behind the check of the stream, which still has a buffer. -/
  | checked (r : Rendering) (n written : Nat)
  /-- The stream is gone. -/
  | closed (r : Rendering)
  | killed

/-- The files, the main thread, and everything rendered so far. -/
structure State where
  files : Files
  phase : Phase
  renderings : List Rendering

inductive Action
  | render (r : Rendering)
  | openTrunc
  /-- The next bytes of the text reach the file. -/
  | write (count : Nat)
  /-- `out << text` is done and the stream is good. -/
  | check
  /-- The destructor ends. -/
  | close
  | rename
  /-- The open, the write or the rename fails, and the call ends with a warning. -/
  | fail
  | crash
  | restart

/-- The next bytes go to the file, behind those already there. -/
def writeMore (cfg : Config) (s : State) (r : Rendering) (n written count : Nat)
    (phase : Nat → Phase) : Option State :=
  if written + count ≤ (r.text cfg).length then
    some { s with
      files := s.files.writeAt 0 n written (((r.text cfg).drop written).take count)
      phase := phase (written + count) }
  else none

def step (cfg : Config) (s : State) : Action → Option State
  | .render r =>
      match s.phase with
      | .idle => some { s with phase := .rendered r, renderings := r :: s.renderings }
      | _ => none
  | .openTrunc =>
      match s.phase with
      | .rendered r =>
          let (files, n) := s.files.openTrunc .tmp
          some { s with files := files, phase := .writing r n 0 }
      | _ => none
  | .write count =>
      match s.phase with
      | .writing r n written => writeMore cfg s r n written count (.writing r n)
      | .checked r n written => writeMore cfg s r n written count (.checked r n)
      | _ => none
  | .check =>
      match s.phase with
      | .writing r n written => some { s with phase := .checked r n written }
      | _ => none
  | .close =>
      match s.phase with
      | .checked r _ _ => some { s with phase := .closed r }
      | _ => none
  | .rename =>
      match s.phase with
      | .closed _ =>
          match s.files.rename .tmp .path with
          | some files => some { s with files := files, phase := .idle }
          | none => some { s with phase := .idle }
      | _ => none
  | .fail =>
      match s.phase with
      | .rendered _ => some { s with phase := .idle }
      | .writing _ _ _ => some { s with phase := .idle }
      | .closed _ => some { s with phase := .idle }
      | _ => none
  | .crash => some { s with phase := .killed }
  | .restart =>
      match s.phase with
      | .killed => some { s with phase := .idle }
      | _ => none

/-- How much of a text may have reached the file when its stream is gone. -/
abbrev Amount := Rendering → Nat → Prop

/-- A condition on a step: a stream that is destroyed got an allowed amount out. -/
def Allowed (amount : Amount) (s : State) : Action → Prop
  | .close =>
      match s.phase with
      | .checked r _ written => amount r written
      | _ => True
  | _ => True

/-- A stream gets all its bytes out. -/
def whole (cfg : Config) : Amount := fun r written => written = (r.text cfg).length

instance (cfg : Config) (s : State) : ∀ a, Decidable (Allowed (whole cfg) s a)
  | .close =>
      match h : s.phase with
      | .checked r _ written =>
          decidable_of_iff (written = (r.text cfg).length) (by simp [Allowed, h, whole])
      | .idle => .isTrue (by simp [Allowed, h])
      | .rendered _ => .isTrue (by simp [Allowed, h])
      | .writing _ _ _ => .isTrue (by simp [Allowed, h])
      | .closed _ => .isTrue (by simp [Allowed, h])
      | .killed => .isTrue (by simp [Allowed, h])
  | .render _ => .isTrue trivial
  | .openTrunc => .isTrue trivial
  | .write _ => .isTrue trivial
  | .check => .isTrue trivial
  | .rename => .isTrue trivial
  | .fail => .isTrue trivial
  | .crash => .isTrue trivial
  | .restart => .isTrue trivial

/-- The file is as it was at first, or has an allowed start of a rendered text. -/
def Contents (cfg : Config) (amount : Amount) (initial : Option Bytes) (s : State) : Prop :=
  s.files.read .path = initial ∨ ∃ r ∈ s.renderings, ∃ written, amount r written ∧
    s.files.read .path = some ((r.text cfg).take written)

/-- A stream on the temporary file that has written so many bytes. -/
structure Streaming (cfg : Config) (s : State) (r : Rendering) (n written : Nat) : Prop where
  taken : r ∈ s.renderings
  linked : s.files.inode .tmp = some n
  content : s.files.content n = (r.text cfg).take written
  bound : written ≤ (r.text cfg).length

/-- What a phase says about the files and the renderings. -/
def PhaseOk (cfg : Config) (amount : Amount) (s : State) : Phase → Prop
  | .idle => True
  | .rendered r => r ∈ s.renderings
  | .writing r n written => Streaming cfg s r n written
  | .checked r n written => Streaming cfg s r n written
  | .closed r => r ∈ s.renderings ∧ ∃ written, amount r written ∧
      s.files.read .tmp = some ((r.text cfg).take written)
  | .killed => True

structure Inv (cfg : Config) (amount : Amount) (initial : Option Bytes) (s : State) : Prop where
  unshared : s.files.Unshared
  contents : Contents cfg amount initial s
  phase : PhaseOk cfg amount s s.phase

variable {cfg : Config} {amount : Amount} {initial : Option Bytes} {s t : State}

theorem path_ne_tmp : FileName.path ≠ FileName.tmp := by decide

/-- When the renderings grow and the file stays, its contents stay allowed. -/
theorem Contents.mono (h : Contents cfg amount initial s)
    (hread : t.files.read .path = s.files.read .path)
    (hrenderings : ∀ r ∈ s.renderings, r ∈ t.renderings) : Contents cfg amount initial t := by
  unfold Contents
  rw [hread]
  rcases h with hinitial | ⟨r, hr, written, hamount, htext⟩
  · exact .inl hinitial
  · exact .inr ⟨r, hrenderings r hr, written, hamount, htext⟩

/-- What is left to show when only the phase changes. -/
theorem Inv.move (h : Inv cfg amount initial s) {phase : Phase}
    (hphase : PhaseOk cfg amount s phase) : Inv cfg amount initial { s with phase := phase } := by
  refine ⟨h.unshared, h.contents, ?_⟩
  cases phase with
  | idle => trivial
  | rendered r => exact hphase
  | writing r n written => exact ⟨hphase.taken, hphase.linked, hphase.content, hphase.bound⟩
  | checked r n written => exact ⟨hphase.taken, hphase.linked, hphase.content, hphase.bound⟩
  | closed r => exact hphase
  | killed => trivial

/-- A call begins with its rendering. -/
theorem inv_render {r : Rendering} (h : Inv cfg amount initial s)
    (hstep : step cfg s (.render r) = some t) : Inv cfg amount initial t := by
  simp only [step] at hstep
  split at hstep
  · cases hstep
    exact ⟨h.unshared, h.contents.mono rfl fun _ => List.mem_cons_of_mem _, List.mem_cons_self⟩
  · cases hstep

/-- Opening truncates the temporary file and not the one in place. -/
theorem inv_openTrunc (h : Inv cfg amount initial s)
    (hstep : step cfg s .openTrunc = some t) : Inv cfg amount initial t := by
  simp only [step] at hstep
  split at hstep
  · rename_i r hphase
    cases hstep
    have hr := h.phase
    rw [hphase] at hr
    obtain ⟨hlinked, hempty⟩ := FileSystem.openTrunc_spec s.files .tmp
    have hpath := FileSystem.read_openTrunc_of_ne h.unshared path_ne_tmp
    exact ⟨FileSystem.unshared_openTrunc h.unshared .tmp, h.contents.mono hpath fun _ hr => hr,
      hr, hlinked, hempty, Nat.zero_le _⟩
  · cases hstep

/-- Bytes of a stream go to the temporary file only, behind those already written. -/
theorem inv_writeMore {r : Rendering} {n written count : Nat} (phase : Nat → Phase)
    (h : Inv cfg amount initial s) (hstream : Streaming cfg s r n written)
    (hphase : ∀ written u, Streaming cfg u r n written → PhaseOk cfg amount u (phase written))
    (hstep : writeMore cfg s r n written count phase = some t) : Inv cfg amount initial t := by
  unfold writeMore at hstep
  split_ifs at hstep with hcount
  cases hstep
  have hpath : s.files.inode .path ≠ some n := by
    intro hshared
    exact path_ne_tmp (h.unshared _ _ n hshared hstream.linked)
  refine ⟨h.unshared, h.contents.mono (FileSystem.read_writeAt_of_ne hpath) fun _ hr => hr, ?_⟩
  refine hphase _ _ ⟨hstream.taken, hstream.linked, ?_, hcount⟩
  simp only [FileSystem.writeAt, Function.update_self, hstream.content]
  exact FileSystem.overwrite_take 0 hstream.bound count

/-- The stream gets some of its bytes out. -/
theorem inv_write {count : Nat} (h : Inv cfg amount initial s)
    (hstep : step cfg s (.write count) = some t) : Inv cfg amount initial t := by
  have hphase := h.phase
  simp only [step] at hstep
  split at hstep
  · rename_i r n written heq
    rw [heq] at hphase
    exact inv_writeMore (.writing r n) h hphase (fun _ _ hstream => hstream) hstep
  · rename_i r n written heq
    rw [heq] at hphase
    exact inv_writeMore (.checked r n) h hphase (fun _ _ hstream => hstream) hstep
  · cases hstep

/-- The test of the stream, which can have bytes left even then. -/
theorem inv_check (h : Inv cfg amount initial s) (hstep : step cfg s .check = some t) :
    Inv cfg amount initial t := by
  have hphase := h.phase
  simp only [step] at hstep
  split at hstep
  · rename_i r n written heq
    rw [heq] at hphase
    cases hstep
    exact h.move hphase
  · cases hstep

/-- What the stream got out is what the rename will put in place. -/
theorem inv_close (h : Inv cfg amount initial s) (hok : Allowed amount s .close)
    (hstep : step cfg s .close = some t) : Inv cfg amount initial t := by
  have hphase := h.phase
  simp only [step] at hstep
  split at hstep
  · rename_i r n written heq
    rw [heq] at hphase
    cases hstep
    have hamount : amount r written := by
      simpa only [Allowed, heq] using hok
    refine h.move ⟨hphase.taken, written, hamount, ?_⟩
    rw [FileSystem.read, hphase.linked, Option.map_some, hphase.content]
  · cases hstep

/-- The file is replaced by the temporary one. -/
theorem inv_rename (h : Inv cfg amount initial s) (hstep : step cfg s .rename = some t) :
    Inv cfg amount initial t := by
  have hphase := h.phase
  simp only [step] at hstep
  split at hstep
  · rename_i r heq
    rw [heq] at hphase
    obtain ⟨htaken, written, hamount, htmp⟩ := hphase
    split at hstep
    · rename_i files hrename
      cases hstep
      obtain ⟨hpath, -, hunshared, -⟩ :=
        FileSystem.rename_spec h.unshared path_ne_tmp.symm hrename
      exact ⟨hunshared, .inr ⟨r, htaken, written, hamount, hpath.trans htmp⟩, trivial⟩
    · cases hstep
      exact h.move trivial
  · cases hstep

/-- A call that gives up leaves the files as they are. -/
theorem inv_fail (h : Inv cfg amount initial s) (hstep : step cfg s .fail = some t) :
    Inv cfg amount initial t := by
  simp only [step] at hstep
  split at hstep
  case h_4 => cases hstep
  all_goals
    cases hstep
    exact h.move trivial

/-- After a crash the files are what they were. -/
theorem inv_restart (h : Inv cfg amount initial s) (hstep : step cfg s .restart = some t) :
    Inv cfg amount initial t := by
  simp only [step] at hstep
  split at hstep
  · cases hstep
    exact h.move trivial
  · cases hstep

/-- One step keeps the invariant. -/
theorem inv_step (s : State) (a : Action) (t : State) (h : Inv cfg amount initial s)
    (hok : Allowed amount s a) (hstep : step cfg s a = some t) : Inv cfg amount initial t := by
  cases a with
  | render r => exact inv_render h hstep
  | openTrunc => exact inv_openTrunc h hstep
  | write count => exact inv_write h hstep
  | check => exact inv_check h hstep
  | close => exact inv_close h hok hstep
  | rename => exact inv_rename h hstep
  | fail => exact inv_fail h hstep
  | crash =>
      cases hstep
      exact h.move trivial
  | restart => exact inv_restart h hstep

/-- Before the first call, with any files of earlier processes. -/
def start (path tmp : Option Bytes) : State := ⟨directory path tmp, .idle, []⟩

/-- At first the file is what it was. -/
theorem inv_start (cfg : Config) (amount : Amount) (path tmp : Option Bytes) :
    Inv cfg amount path (start path tmp) := by
  have hsave := SaveFileProtocol.inv_start (ι := Unit) SortedMap.empty path tmp
  refine ⟨hsave.unshared, .inl ?_, trivial⟩
  cases path <;> simp [start, directory, FileSystem.read]

/-- In every run the file holds what it held at first, or the start of a rendered text. -/
theorem contents_of_run {path tmp : Option Bytes} {schedule : List Action}
    (hrun : runFrom (step cfg) (start path tmp) schedule = some t) :
    Contents cfg (fun _ _ => True) path t := by
  refine (invariant_of_run (fun s a t h hstep => inv_step s a t h ?_ hstep)
    (inv_start cfg (fun _ _ => True) path tmp) hrun).contents
  cases a with
  | close =>
      simp only [Allowed]
      split <;> trivial
  | _ => trivial

/-- **The collector reads whole metrics.**  In every run of calls, failures, crashes and restarts
in which the streams get their bytes out, the file is at every moment what it was at first or the
whole text of one rendering; and if the halves of that one are apart and its values are floats, it
is read as its metrics. -/
theorem collector_reads (cfg : Config) (path tmp : Option Bytes) {schedule : List Action}
    (hok : StepsMeet (step cfg) (Allowed (whole cfg)) (start path tmp) schedule)
    (hrun : runFrom (step cfg) (start path tmp) schedule = some t) :
    t.files.read .path = path ∨ ∃ r ∈ t.renderings,
      t.files.read .path = some (r.text cfg) ∧
        (Nameable cfg r.store → HasFloat r.status.uptimeSeconds →
          r.Apart cfg ∧ FloatsShown cfg r.store → ReadsAs (r.text cfg) (r.families cfg)) := by
  have hinv := invariant_of_guarded_run inv_step (inv_start cfg (whole cfg) path tmp) hok hrun
  rcases hinv.contents with hinitial | ⟨r, hr, written, hwhole, hread⟩
  · exact .inl hinitial
  · have hlength : written = (r.text cfg).length := hwhole
    rw [hlength, List.take_length] at hread
    exact .inr ⟨r, hr, hread, fun hnames huptime => (Rendering.readable_iff hnames huptime).2⟩

/-- The steps of one call. -/
def call (cfg : Config) (r : Rendering) : List Action :=
  [.render r, .openTrunc, .write (r.text cfg).length, .check, .close, .rename]

/-- A file that is there can be renamed. -/
theorem exists_rename {files : Files} {n : Nat} (h : files.inode .tmp = some n) :
    ∃ files', files.rename .tmp .path = some files' := by
  unfold FileSystem.rename
  split
  · rename_i hnone
    rw [h] at hnone
    cases hnone
  · split_ifs
    · exact ⟨_, rfl⟩
    · exact ⟨_, rfl⟩

/-- Whatever earlier calls left behind, the text gets in place. -/
theorem call_completes (cfg : Config) (r : Rendering) (hunshared : s.files.Unshared)
    (hidle : s.phase = .idle) : ∃ t, runFrom (step cfg) s (call cfg r) = some t ∧
      StepsMeet (step cfg) (Allowed (whole cfg)) s (call cfg r) ∧ t.phase = .idle ∧
        t.files.read .path = some (r.text cfg) := by
  obtain ⟨hlinked, hempty⟩ := FileSystem.openTrunc_spec s.files .tmp
  have hopened := FileSystem.unshared_openTrunc hunshared .tmp
  generalize hopen : s.files.openTrunc .tmp = opened at hlinked hempty hopened
  obtain ⟨files, n⟩ := opened
  have hwrite : (files.writeAt 0 n 0 (r.text cfg)).content n = r.text cfg := by
    have hover := FileSystem.overwrite_take 0 (Nat.zero_le (r.text cfg).length) (r.text cfg).length
    rw [List.drop_zero, List.take_zero, Nat.zero_add, List.take_length] at hover
    simp only [FileSystem.writeAt, Function.update_self]
    rw [hempty]
    exact hover
  generalize hfiles : files.writeAt 0 n 0 (r.text cfg) = written at hwrite
  have hlinked' : written.inode .tmp = some n := hfiles ▸ hlinked
  have hunshared' : written.Unshared := hfiles ▸ hopened
  obtain ⟨final, hrename⟩ := exists_rename hlinked'
  obtain ⟨hpath, -, -, -⟩ := FileSystem.rename_spec hunshared' path_ne_tmp.symm hrename
  refine ⟨⟨final, .idle, r :: s.renderings⟩, ?_, ?_, rfl, ?_⟩
  · simp [call, runFrom, step, hidle, hopen, writeMore, hfiles, hrename]
  · simp [call, StepsMeet, Allowed, whole, step, hidle, hopen, writeMore]
  · rw [hpath, FileSystem.read, hlinked', Option.map_some, hwrite]

/-- What an idle server renders. -/
def quietRendering : Rendering := renderingOf quietSurroundings (oneEntry (ascii "a") 1)

/-- The first call of a server whose predecessor left half a temporary file. -/
theorem collector_reads_call : ∃ t,
    runFrom (step {}) (start none (some (ascii "# HELP"))) (call {} quietRendering) = some t ∧
      (t.files.read .path = none ∨ ∃ r ∈ t.renderings, t.files.read .path = some (r.text {}) ∧
        (Nameable {} r.store → HasFloat r.status.uptimeSeconds →
          r.Apart {} ∧ FloatsShown {} r.store → ReadsAs (r.text {}) (r.families {}))) ∧
      t.files.read .path = some (quietRendering.text {}) := by
  obtain ⟨t, hrun, hmeets, -, hread⟩ := call_completes {} quietRendering
    (inv_start {} (whole {}) none (some (ascii "# HELP"))).unshared rfl
  exact ⟨t, hrun, collector_reads {} none _ hmeets hrun, hread⟩

end TextfileProtocol

end Nshmqtt
