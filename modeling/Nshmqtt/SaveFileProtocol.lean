import Nshmqtt.FileSystem
import Nshmqtt.State
import Nshmqtt.TransitionRuns
import Mathlib.Data.Fintype.Basic

/-!
# The file protocol of `save`

One `save` takes a snapshot, opens and truncates the temporary file, writes the
text, closes the file and renames it to the state file.  All savers of one path
use the same temporary name, and the store keeps changing under them.  A
failing file operation ends the save where it stands, and a crash ends all of
them.

A saver that truncates the temporary file while another one stands between its
open and its rename takes the text out of that one's file: the rename then puts
an empty or half-written file in place.  If no open does that, the state file
is at every moment its initial content or the whole text of a snapshot.
-/

namespace Nshmqtt

open ByteStrings TransitionRuns StateStore

namespace SaveFileProtocol

/-- The two names in the directory of the state file. -/
inductive FileName
  | tmp
  | path
  deriving DecidableEq

abbrev Files := FileSystem FileName UInt8

/-- The point one `save` has reached. -/
inductive Phase
  /-- Before the snapshot. -/
  | ready
  /-- With its text, before the open. -/
  | serialized (text : Bytes)
  /-- With a handle on file `n`, after writing so many bytes. -/
  | writing (text : Bytes) (n written : Nat)
  /-- Written, flushed and closed, before the rename. -/
  | closed (text : Bytes)
  /-- Returned, or killed by the crash. -/
  | stopped
  deriving DecidableEq

variable {ι : Type*}

/-- The store, the files, every saver, and the snapshots taken so far. -/
structure State (ι : Type*) where
  store : StateStore
  files : Files
  phase : ι → Phase
  snapshots : List StateStore

inductive Action (ι : Type*)
  /-- Someone changes the store. -/
  | update (store : StateStore)
  | snapshot (i : ι)
  | openTrunc (i : ι)
  /-- The next bytes of the text reach the file. -/
  | write (i : ι) (count : Nat)
  | close (i : ι)
  | rename (i : ι)
  /-- A file operation fails and `save` returns. -/
  | fail (i : ι)
  | crash

variable [DecidableEq ι]

def State.move (s : State ι) (i : ι) (phase : Phase) : State ι :=
  { s with phase := Function.update s.phase i phase }

def step (s : State ι) : Action ι → Option (State ι)
  | .update store => some { s with store := store }
  | .snapshot i =>
      match s.phase i with
      | .ready =>
          some ({ s with snapshots := s.store :: s.snapshots }.move i
            (.serialized (saveText s.store.snapshot)))
      | _ => none
  | .openTrunc i =>
      match s.phase i with
      | .serialized text =>
          let (files, n) := s.files.openTrunc .tmp
          some ({ s with files := files }.move i (.writing text n 0))
      | _ => none
  | .write i count =>
      match s.phase i with
      | .writing text n written =>
          if written + count ≤ text.length then
            let files := s.files.writeAt 0 n written ((text.drop written).take count)
            some ({ s with files := files }.move i (.writing text n (written + count)))
          else none
      | _ => none
  | .close i =>
      match s.phase i with
      | .writing text _ written =>
          if written = text.length then some (s.move i (.closed text)) else none
      | _ => none
  | .rename i =>
      match s.phase i with
      | .closed _ =>
          match s.files.rename .tmp .path with
          | some files => some ({ s with files := files }.move i .stopped)
          | none => some (s.move i .stopped)
      | _ => none
  | .fail i =>
      match s.phase i with
      | .serialized _ => some (s.move i .stopped)
      | .writing _ _ _ => some (s.move i .stopped)
      | .closed _ => some (s.move i .stopped)
      | _ => none
  | .crash => some { s with phase := fun _ => .stopped }

/-- Between its open and its rename. -/
def inWindow : Phase → Bool
  | .writing _ _ _ => true
  | .closed _ => true
  | _ => false

/-- The condition on a step: the temporary file is opened only while no other
saver stands between its open and its rename. -/
def OpensAlone (s : State ι) : Action ι → Prop
  | .openTrunc i => ∀ j, j ≠ i → inWindow (s.phase j) = false
  | _ => True

instance [Fintype ι] (s : State ι) : ∀ a, Decidable (OpensAlone s a)
  | .openTrunc i => inferInstanceAs (Decidable (∀ j, j ≠ i → inWindow (s.phase j) = false))
  | .update _ => .isTrue trivial
  | .snapshot _ => .isTrue trivial
  | .write _ _ => .isTrue trivial
  | .close _ => .isTrue trivial
  | .rename _ => .isTrue trivial
  | .fail _ => .isTrue trivial
  | .crash => .isTrue trivial

/-- The state file is as it was at first, or the whole text of a snapshot. -/
def Intact (initial : Option Bytes) (s : State ι) : Prop :=
  s.files.read .path = initial ∨
    ∃ store ∈ s.snapshots, s.files.read .path = some (saveText store.snapshot)

instance (initial : Option Bytes) (s : State ι) : Decidable (Intact initial s) :=
  inferInstanceAs (Decidable (_ ∨ ∃ store ∈ s.snapshots, _))

/-- The text a saver carries is that of a snapshot. -/
def Serialized (snapshots : List StateStore) (text : Bytes) : Prop :=
  ∃ store ∈ snapshots, text = saveText store.snapshot

/-- What a phase says about the files and the snapshots. -/
def PhaseOk (files : Files) (snapshots : List StateStore) : Phase → Prop
  | .ready => True
  | .serialized text => Serialized snapshots text
  | .writing text n written =>
      Serialized snapshots text ∧ files.inode .tmp = some n ∧
        files.content n = text.take written ∧ written ≤ text.length
  | .closed text => Serialized snapshots text ∧ files.read .tmp = some text
  | .stopped => True

/-- The invariant of a run whose opens are alone. -/
structure Inv (initial : Option Bytes) (s : State ι) : Prop where
  unshared : s.files.Unshared
  intact : Intact initial s
  phases : ∀ i, PhaseOk s.files s.snapshots (s.phase i)
  alone : ∀ i j, inWindow (s.phase i) = true → inWindow (s.phase j) = true → i = j

variable {initial : Option Bytes} {s t : State ι}

omit [DecidableEq ι] in
/-- Outside the window a phase says nothing about the files. -/
theorem phaseOk_of_outside {files files' : Files} {snapshots : List StateStore} {phase : Phase}
    (h : PhaseOk files snapshots phase) (hout : inWindow phase = false) :
    PhaseOk files' snapshots phase := by
  cases phase with
  | ready => trivial
  | serialized text => exact h
  | writing text n written => cases hout
  | closed text => cases hout
  | stopped => trivial

/-- A text that was the store's once stays so. -/
theorem serialized_cons {snapshots : List StateStore} {text : Bytes} (store : StateStore)
    (h : Serialized snapshots text) : Serialized (store :: snapshots) text := by
  obtain ⟨taken, hmem, htext⟩ := h
  exact ⟨taken, List.mem_cons_of_mem _ hmem, htext⟩

/-- A further snapshot does no harm to a saver. -/
theorem phaseOk_cons {files : Files} {snapshots : List StateStore} {phase : Phase}
    (store : StateStore) (h : PhaseOk files snapshots phase) :
    PhaseOk files (store :: snapshots) phase := by
  cases phase with
  | ready => trivial
  | serialized text => exact serialized_cons store h
  | writing text n written => exact ⟨serialized_cons store h.1, h.2⟩
  | closed text => exact ⟨serialized_cons store h.1, h.2⟩
  | stopped => trivial

omit [DecidableEq ι] in
/-- The other savers are outside the window of one that is in it. -/
theorem Inv.others_outside (hs : Inv initial s) {i j : ι} (hi : inWindow (s.phase i) = true)
    (hj : j ≠ i) : inWindow (s.phase j) = false := by
  by_contra hin
  exact hj (hs.alone j i (Bool.not_eq_false _ ▸ hin) hi)

/-- What is left to show when one saver moves. -/
theorem inv_move {files : Files} {snapshots : List StateStore} {i : ι} {phase : Phase}
    (hs : Inv initial s) (hunshared : files.Unshared)
    (hintact : Intact initial { s with files := files, snapshots := snapshots })
    (hphase : PhaseOk files snapshots phase)
    (hothers : ∀ j, j ≠ i → PhaseOk files snapshots (s.phase j))
    (hwindow : inWindow phase = true → ∀ j, j ≠ i → inWindow (s.phase j) = false) :
    Inv initial ({ s with files := files, snapshots := snapshots }.move i phase) := by
  have hself : ∀ (u : State ι), (u.move i phase).phase i = phase := fun u =>
    Function.update_self ..
  have hother : ∀ (u : State ι) (j : ι), j ≠ i → (u.move i phase).phase j = u.phase j :=
    fun u j hj => Function.update_of_ne hj ..
  refine ⟨hunshared, hintact, ?_, ?_⟩
  · intro j
    by_cases hj : j = i
    · rw [hj, hself]
      exact hphase
    · rw [hother _ j hj]
      exact hothers j hj
  · intro j k hin hin'
    by_cases hj : j = i
    · by_cases hk : k = i
      · rw [hj, hk]
      · rw [hother _ k hk] at hin'
        rw [hj, hself] at hin
        rw [hwindow hin k hk] at hin'
        cases hin'
    · rw [hother _ j hj] at hin
      by_cases hk : k = i
      · rw [hk, hself] at hin'
        rw [hwindow hin' j hj] at hin
        cases hin
      · rw [hother _ k hk] at hin'
        exact hs.alone j k hin hin'

/-- A saver takes its snapshot. -/
theorem inv_snapshot {i : ι} (hs : Inv initial s) (h : step s (.snapshot i) = some t) :
    Inv initial t := by
  simp only [step] at h
  split at h
  · rw [Option.some.injEq] at h
    subst h
    refine inv_move hs hs.unshared ?_ ⟨s.store, List.mem_cons_self, rfl⟩
      (fun j _ => phaseOk_cons _ (hs.phases j)) (fun hin => by cases hin)
    rcases hs.intact with hinit | ⟨store, hmem, hread⟩
    · exact Or.inl hinit
    · exact Or.inr ⟨store, List.mem_cons_of_mem _ hmem, hread⟩
  · cases h

/-- Opening alone touches no other saver's text and not the state file. -/
theorem inv_openTrunc {i : ι} (hs : Inv initial s) (hok : OpensAlone s (.openTrunc i))
    (h : step s (.openTrunc i) = some t) : Inv initial t := by
  simp only [step] at h
  split at h
  · rename_i text hphase
    rw [Option.some.injEq] at h
    subst h
    have hserialized := hs.phases i
    rw [hphase] at hserialized
    obtain ⟨hlink, hcontent⟩ := FileSystem.openTrunc_spec s.files .tmp
    have hpath := FileSystem.read_openTrunc_of_ne hs.unshared
      (show FileName.path ≠ FileName.tmp by decide)
    refine inv_move hs (FileSystem.unshared_openTrunc hs.unshared .tmp) ?_
      ⟨hserialized, hlink, hcontent, Nat.zero_le _⟩
      (fun j hj => phaseOk_of_outside (hs.phases j) (hok j hj)) (fun _ => hok)
    unfold Intact
    simp only [hpath]
    exact hs.intact
  · cases h

/-- Bytes go to the temporary file only, after those already written. -/
theorem inv_write {i : ι} {count : Nat} (hs : Inv initial s)
    (h : step s (.write i count) = some t) : Inv initial t := by
  simp only [step] at h
  split at h
  · rename_i text n written hphase
    split_ifs at h with hcount
    rw [Option.some.injEq] at h
    subst h
    have hwriting := hs.phases i
    rw [hphase] at hwriting
    obtain ⟨hserialized, hlink, hcontent, hwritten⟩ := hwriting
    have hothers : ∀ j, j ≠ i → inWindow (s.phase j) = false := fun j hj =>
      hs.others_outside (by rw [hphase]; rfl) hj
    have hpath : s.files.inode .path ≠ some n := by
      intro hshared
      exact absurd (hs.unshared _ _ n hshared hlink) (by decide)
    refine inv_move hs hs.unshared ?_ ⟨hserialized, hlink, ?_, hcount⟩
      (fun j hj => phaseOk_of_outside (hs.phases j) (hothers j hj)) (fun _ => hothers)
    · unfold Intact
      simp only [FileSystem.read_writeAt_of_ne hpath]
      exact hs.intact
    · simp only [FileSystem.writeAt, Function.update_self, hcontent]
      exact FileSystem.overwrite_take 0 hwritten count
  · cases h

/-- A file that is closed holds the whole text. -/
theorem inv_close {i : ι} (hs : Inv initial s) (h : step s (.close i) = some t) :
    Inv initial t := by
  simp only [step] at h
  split at h
  · rename_i text n written hphase
    split_ifs at h with hwritten
    rw [Option.some.injEq] at h
    subst h
    have hwriting := hs.phases i
    rw [hphase] at hwriting
    obtain ⟨hserialized, hlink, hcontent, -⟩ := hwriting
    have hread : s.files.read .tmp = some text := by
      rw [FileSystem.read, hlink, Option.map_some, hcontent, hwritten, List.take_length]
    exact inv_move hs hs.unshared hs.intact ⟨hserialized, hread⟩ (fun j _ => hs.phases j)
      (fun _ j hj => hs.others_outside (by rw [hphase]; rfl) hj)
  · cases h

/-- The renamed file holds the whole text of the saver that renames it. -/
theorem inv_rename {i : ι} (hs : Inv initial s) (h : step s (.rename i) = some t) :
    Inv initial t := by
  simp only [step] at h
  split at h
  · rename_i text hphase
    have hclosed := hs.phases i
    rw [hphase] at hclosed
    obtain ⟨⟨store, hmem, htext⟩, hread⟩ := hclosed
    have hothers : ∀ j, j ≠ i → inWindow (s.phase j) = false := fun j hj =>
      hs.others_outside (by rw [hphase]; rfl) hj
    split at h
    · rename_i files hrename
      rw [Option.some.injEq] at h
      subst h
      obtain ⟨hpath, -, hunshared, -⟩ := FileSystem.rename_spec hs.unshared (by decide) hrename
      refine inv_move hs hunshared (Or.inr ⟨store, hmem, ?_⟩) trivial
        (fun j hj => phaseOk_of_outside (hs.phases j) (hothers j hj)) (fun hin => by cases hin)
      simp only [hpath, hread, htext]
    · rw [Option.some.injEq] at h
      subst h
      exact inv_move hs hs.unshared hs.intact trivial (fun j _ => hs.phases j)
        (fun hin => by cases hin)
  · cases h

/-- A failing save leaves all files as they are. -/
theorem inv_fail {i : ι} (hs : Inv initial s) (h : step s (.fail i) = some t) :
    Inv initial t := by
  simp only [step] at h
  split at h
  case h_4 => cases h
  all_goals
    rw [Option.some.injEq] at h
    subst h
    exact inv_move hs hs.unshared hs.intact trivial (fun j _ => hs.phases j)
      (fun hin => by cases hin)

/-- One step keeps the invariant, if an open is alone. -/
theorem inv_step (s : State ι) (a : Action ι) (t : State ι) (hs : Inv initial s)
    (hok : OpensAlone s a) (h : step s a = some t) : Inv initial t := by
  cases a with
  | update store =>
      rw [step, Option.some.injEq] at h
      subst h
      exact ⟨hs.unshared, hs.intact, hs.phases, hs.alone⟩
  | snapshot i => exact inv_snapshot hs h
  | openTrunc i => exact inv_openTrunc hs hok h
  | write i count => exact inv_write hs h
  | close i => exact inv_close hs h
  | rename i => exact inv_rename hs h
  | fail i => exact inv_fail hs h
  | crash =>
      rw [step, Option.some.injEq] at h
      subst h
      exact ⟨hs.unshared, hs.intact, fun _ => trivial, fun _ _ hin => by cases hin⟩

/-- A directory that holds a state file and a left-over temporary file, either
of which may be missing. -/
def directory (path tmp : Option Bytes) : Files where
  inode
    | .path => path.map fun _ => 0
    | .tmp => tmp.map fun _ => 1
  content n := if n = 0 then path.getD [] else tmp.getD []
  next := 2
  linked := by
    intro name n hn
    cases name <;> simp at hn <;> omega

/-- Before the run: no save has started. -/
def start (ι : Type*) (store : StateStore) (path tmp : Option Bytes) : State ι :=
  ⟨store, directory path tmp, fun _ => .ready, []⟩

omit [DecidableEq ι] in
/-- At first the file is what it was. -/
theorem inv_start (store : StateStore) (path tmp : Option Bytes) :
    Inv path (start ι store path tmp) := by
  refine ⟨?_, Or.inl ?_, fun _ => trivial, fun _ _ hin => by cases hin⟩
  · intro a b n ha hb
    cases a <;> cases b <;> simp [start, directory] at ha hb ⊢ <;> omega
  · cases path <;> simp [start, directory, FileSystem.read]

/-- **The state file is never torn.**  In every run in which each saver opens
the temporary file alone, with failures and a crash anywhere, the state file is
at every moment its initial content or the whole text of a snapshot. -/
theorem intact_of_opensAlone (store : StateStore) (path tmp : Option Bytes)
    {schedule : List (Action ι)} {t : State ι}
    (hok : StepsMeet step OpensAlone (start ι store path tmp) schedule)
    (hrun : runFrom step (start ι store path tmp) schedule = some t) : Intact path t :=
  (invariant_of_guarded_run inv_step (inv_start store path tmp) hok hrun).intact

/-- A store with one metric; its text has seven bytes. -/
def oneMetric : StateStore := StateStore.set SortedMap.empty (ascii "a") (Binary64.ofInt 1)

/-- One save is cut off by a failing write, the next one completes, and the
process crashes during a third. -/
theorem intact_failed_then_saved : ∃ t,
    runFrom step (start (Fin 3) oneMetric (some (ascii "old")) none)
      [.snapshot 0, .openTrunc 0, .write 0 3, .fail 0, .snapshot 1, .openTrunc 1, .write 1 7,
        .close 1, .rename 1, .snapshot 2, .openTrunc 2, .write 2 1, .crash] = some t ∧
    Intact (some (ascii "old")) t := by
  obtain ⟨t, hrun, -⟩ := exists_of_runFrom
    step (start (Fin 3) oneMetric (some (ascii "old")) none)
    [.snapshot 0, .openTrunc 0, .write 0 3, .fail 0, .snapshot 1, .openTrunc 1,
      .write 1 7, .close 1, .rename 1, .snapshot 2, .openTrunc 2, .write 2 1, .crash]
    (fun _ => true) (by decide +kernel)
  exact ⟨t, hrun, intact_of_opensAlone oneMetric (some (ascii "old")) none (by decide +kernel)
    hrun⟩

/-- **The state file is emptied.**  The first saver has written and closed its
file, the second one opens and truncates it, and the first one renames it into
place. -/
theorem save_tears_file :
    ¬ ∀ (store : StateStore) (path tmp : Option Bytes) (schedule : List (Action Bool))
      (t : State Bool), runFrom step (start Bool store path tmp) schedule = some t →
      Intact path t := by
  intro hclaim
  obtain ⟨t, hrun, ht⟩ := exists_of_runFrom
    step (start Bool oneMetric none none)
    [.snapshot false, .openTrunc false, .write false 7, .close false,
      .snapshot true, .openTrunc true, .rename false]
    (fun t => decide (¬ Intact none t)) (by decide +kernel)
  rw [decide_eq_true_eq] at ht
  exact ht (hclaim oneMetric none none _ t hrun)

end SaveFileProtocol

end Nshmqtt
