import Nshmqtt.JsonTokens

/-!
# The current-state store

`state.cpp`: one number per name, kept as a sorted map, and its file.  The
operations of the store are atomic (each holds the mutex), so they are plain
functions here; the interleavings of several callers are the subject of later
files.
-/

namespace Nshmqtt

open ByteStrings

/-- The value of each name, in name order. -/
abbrev StateStore := SortedMap Bytes Double

namespace StateStore

def set (store : StateStore) (name : Bytes) (value : Double) : StateStore :=
  store.insert name value

/-- The store without `name`, and whether the name existed. -/
def remove (store : StateStore) (name : Bytes) : StateStore × Bool :=
  (store.erase name, (store.lookup name).isSome)

def get (store : StateStore) (name : Bytes) : Option Double := store.lookup name

def snapshot (store : StateStore) : List (Bytes × Double) := store.entries

def size (store : StateStore) : Nat := store.entries.length

/-- One member of the state file. -/
def memberText (item : Bytes × Double) : Bytes :=
  [quote] ++ jsonEscape item.1 ++ [quote, colon] ++ formatDouble item.2

/-- The text that `save` writes for a snapshot. -/
def saveText (items : List (Bytes × Double)) : Bytes :=
  [openBrace] ++ [comma].intercalate (items.map memberText) ++ [closeBrace]

/-- What reading the path of the state file gives.  The source tests the flags of the file
after `<< file.rdbuf()`, which sets none of them, so that its branch for a file that cannot be
read is never taken. -/
inductive FileRead
  | absent
  | unreadable
  | contents (text : Bytes)

/-- Replace the store by the file; a missing file leaves it alone. -/
def load (store : StateStore) (path : Bytes) : FileRead → Except Bytes StateStore
  | .absent => .ok store
  | .unreadable => .error (ascii "failed to read state file: " ++ path)
  | .contents text =>
      match parseFlatNumberObject text with
      | none =>
          .error (ascii "state file is not a valid flat \x7b\"name\": value, ...\x7d object: " ++
            path)
      | some loaded => .ok loaded

/-- The state file and the temporary file next to it, by their contents. -/
structure StateFiles where
  file : Option Bytes
  tmp : Option Bytes

/-- How the file operations of one `save` turn out. -/
inductive SaveIo
  | succeeds
  | openFails
  /-- The write stops after some bytes. -/
  | writeFails (written : Nat)
  | renameFails

def tmpPath (path : Bytes) : Bytes := path ++ ascii ".tmp"

/-- Write the snapshot to the temporary file and rename it into place. -/
def save (store : StateStore) (path : Bytes) (files : StateFiles) :
    SaveIo → Except Bytes Unit × StateFiles
  | .openFails =>
      (.error (ascii "failed to open state file for writing: " ++ tmpPath path), files)
  | .writeFails written =>
      (.error (ascii "failed to write state file: " ++ tmpPath path),
        { files with tmp := some ((saveText store.snapshot).take written) })
  | .renameFails =>
      (.error (ascii "failed to rename state file into place (" ++ tmpPath path ++
          ascii " -> " ++ path ++ ascii ")"),
        { files with tmp := some (saveText store.snapshot) })
  | .succeeds => (.ok (), { file := some (saveText store.snapshot), tmp := none })

/-- Removing an unknown name changes nothing. -/
theorem remove_absent {store : StateStore} {name : Bytes} (h : (store.remove name).2 = false) :
    (store.remove name).1 = store := by
  apply SortedMap.ext_lookup
  intro key
  have hnone : store.lookup name = none := by
    simpa [StateStore.remove] using h
  rw [StateStore.remove, SortedMap.lookup_erase]
  split_ifs with heq
  · rw [heq, hnone]
  · rfl

/-- A failed save leaves the previous state file in place. -/
theorem save_error {store : StateStore} {path err : Bytes} {files files' : StateFiles}
    {io : SaveIo} (h : store.save path files io = (.error err, files')) :
    files'.file = files.file := by
  cases io <;> simp only [save, Prod.mk.injEq, reduceCtorEq, false_and] at h
  all_goals
    obtain ⟨-, hfiles⟩ := h
    exact hfiles ▸ rfl

/-- A value that is set has its name in the store. -/
theorem mem_keys_set (store : StateStore) (name key : Bytes) (value : Double) :
    key ∈ (store.set name value).keys ↔ key = name ∨ key ∈ store.keys := by
  rw [SortedMap.mem_keys_iff, SortedMap.mem_keys_iff, set, SortedMap.lookup_insert]
  split_ifs with h <;> simp [h]

theorem mem_keys_remove (store : StateStore) (name key : Bytes) :
    key ∈ (store.remove name).1.keys ↔ key ≠ name ∧ key ∈ store.keys := by
  rw [SortedMap.mem_keys_iff, SortedMap.mem_keys_iff, remove, SortedMap.lookup_erase]
  split_ifs with h <;> simp [h]

end StateStore

end Nshmqtt
