import Mathlib.Logic.Function.Basic
import Mathlib.Tactic.Common

/-!
# Files behind names

A directory maps names to files, and an open handle refers to a file, not to a
name.  Renaming therefore moves whatever the file holds at that moment, a
handle keeps writing to its file after the rename, and truncating a name
truncates the file for every handle on it.
-/

/-- A directory over numbered files; numbers from `next` on are unused. -/
structure FileSystem (Name Byte : Type*) where
  inode : Name → Option Nat
  content : Nat → List Byte
  next : Nat
  linked : ∀ name n, inode name = some n → n < next

namespace FileSystem

variable {Name Byte : Type*} [DecidableEq Name]

/-- What the file of that name holds, if there is one. -/
def read (fs : FileSystem Name Byte) (name : Name) : Option (List Byte) :=
  (fs.inode name).map fs.content

/-- Open a name for writing: truncate its file, or create an empty one.  The
second component is the file that the handle refers to. -/
def openTrunc (fs : FileSystem Name Byte) (name : Name) : FileSystem Name Byte × Nat :=
  match fs.inode name with
  | some n => ({ fs with content := Function.update fs.content n [] }, n)
  | none =>
      ({ inode := Function.update fs.inode name (some fs.next)
         content := Function.update fs.content fs.next []
         next := fs.next + 1
         linked := by
          intro other n hn
          by_cases h : other = name
          · rw [h, Function.update_self, Option.some.injEq] at hn
            omega
          · rw [Function.update_of_ne h] at hn
            exact Nat.lt_succ_of_lt (fs.linked other n hn) }, fs.next)

/-- `old` with `chunk` written at `offset`; a gap is filled with `zero`. -/
def overwrite (zero : Byte) (old : List Byte) (offset : Nat) (chunk : List Byte) : List Byte :=
  old.take offset ++ List.replicate (offset - old.length) zero ++ chunk ++
    old.drop (offset + chunk.length)

/-- Write through a handle on file `n` that stands at `offset`. -/
def writeAt (zero : Byte) (fs : FileSystem Name Byte) (n offset : Nat) (chunk : List Byte) :
    FileSystem Name Byte :=
  { fs with content := Function.update fs.content n (overwrite zero (fs.content n) offset chunk) }

/-- Rename `src` to `dst`; it fails when there is no `src`, and does nothing
when both names are links to one file. -/
def rename (fs : FileSystem Name Byte) (src dst : Name) : Option (FileSystem Name Byte) :=
  match h : fs.inode src with
  | none => none
  | some n =>
      if fs.inode dst = some n then some fs
      else
        some { fs with
          inode := Function.update (Function.update fs.inode dst (some n)) src none
          linked := by
            intro other m hm
            by_cases hsrc : other = src
            · rw [hsrc, Function.update_self] at hm
              cases hm
            · rw [Function.update_of_ne hsrc] at hm
              by_cases hdst : other = dst
              · rw [hdst, Function.update_self, Option.some.injEq] at hm
                exact hm ▸ fs.linked src n h
              · rw [Function.update_of_ne hdst] at hm
                exact fs.linked other m hm }

/-- No file has two names. -/
def Unshared (fs : FileSystem Name Byte) : Prop :=
  ∀ a b n, fs.inode a = some n → fs.inode b = some n → a = b

variable {fs : FileSystem Name Byte} {name other : Name}

/-- An opened file is there, and it is empty. -/
theorem openTrunc_spec (fs : FileSystem Name Byte) (name : Name) :
    (fs.openTrunc name).1.inode name = some (fs.openTrunc name).2 ∧
      (fs.openTrunc name).1.content (fs.openTrunc name).2 = [] := by
  unfold openTrunc
  split
  · rename_i n hn
    exact ⟨hn, Function.update_self ..⟩
  · exact ⟨Function.update_self .., Function.update_self ..⟩

/-- Other names keep their files. -/
theorem inode_openTrunc_of_ne (fs : FileSystem Name Byte) (h : other ≠ name) :
    (fs.openTrunc name).1.inode other = fs.inode other := by
  unfold openTrunc
  split
  · rfl
  · exact Function.update_of_ne h ..

/-- Truncating one name does not touch the file of another. -/
theorem read_openTrunc_of_ne (hfs : fs.Unshared) (h : other ≠ name) :
    (fs.openTrunc name).1.read other = fs.read other := by
  unfold read
  rw [inode_openTrunc_of_ne fs h]
  cases hother : fs.inode other with
  | none => rfl
  | some m =>
      have hcontent : (fs.openTrunc name).1.content m = fs.content m := by
        unfold openTrunc
        split
        · rename_i n hn
          have hne : m ≠ n := by
            intro heq
            exact h (hfs other name n (heq ▸ hother) hn)
          exact Function.update_of_ne hne ..
        · exact Function.update_of_ne (Nat.ne_of_lt (fs.linked other m hother)) ..
      rw [Option.map_some, Option.map_some, hcontent]

/-- To open a file gives it no second name. -/
theorem unshared_openTrunc (hfs : fs.Unshared) (name : Name) :
    (fs.openTrunc name).1.Unshared := by
  unfold openTrunc
  split
  · exact hfs
  · intro a b n ha hb
    -- the new file is linked under `name` only
    have hfresh : ∀ c, c ≠ name → Function.update fs.inode name (some fs.next) c ≠
        some fs.next := by
      intro c hc hlink
      rw [Function.update_of_ne hc] at hlink
      exact absurd (fs.linked c fs.next hlink) (Nat.lt_irrefl _)
    simp only at ha hb
    by_cases hname : n = fs.next
    · rw [hname] at ha hb
      have ha' : a = name := by_contra fun hne => hfresh a hne ha
      have hb' : b = name := by_contra fun hne => hfresh b hne hb
      rw [ha', hb']
    · have hold : ∀ c, Function.update fs.inode name (some fs.next) c = some n →
          fs.inode c = some n := by
        intro c hc
        by_cases heq : c = name
        · rw [heq, Function.update_self, Option.some.injEq] at hc
          exact absurd hc.symm hname
        · rwa [Function.update_of_ne heq] at hc
      exact hfs a b n (hold a ha) (hold b hb)

omit [DecidableEq Name] in
/-- A write is seen under the names of its file only. -/
theorem read_writeAt_of_ne {zero : Byte} {n offset : Nat} {chunk : List Byte}
    (h : fs.inode other ≠ some n) :
    (fs.writeAt zero n offset chunk).read other = fs.read other := by
  unfold read writeAt
  simp only
  cases hother : fs.inode other with
  | none => rfl
  | some m =>
      have hne : m ≠ n := by
        intro heq
        exact h (heq ▸ hother)
      rw [Option.map_some, Option.map_some, Function.update_of_ne hne]

/-- The next chunk after a prefix of a text. -/
theorem overwrite_take (zero : Byte) {text : List Byte} {written : Nat}
    (h : written ≤ text.length) (count : Nat) :
    overwrite zero (text.take written) written ((text.drop written).take count) =
      text.take (written + count) := by
  have hlength : (text.take written).length = written := by
    rw [List.length_take, Nat.min_eq_left h]
  have hstart : (text.take written).take written = text.take written := by
    rw [List.take_take, Nat.min_self]
  have htail : (text.take written).drop
      (written + ((text.drop written).take count).length) = [] :=
    List.drop_eq_nil_of_le (by omega)
  unfold overwrite
  rw [hstart, hlength, Nat.sub_self, htail, List.replicate_zero, List.append_nil,
    List.append_nil, List.take_add]

/-- A successful rename: the target is the renamed file, the source is gone. -/
theorem rename_spec {fs' : FileSystem Name Byte} (hfs : fs.Unshared) (hne : name ≠ other)
    (h : fs.rename name other = some fs') :
    fs'.read other = fs.read name ∧ fs'.inode name = none ∧ fs'.Unshared ∧
      (∃ n, fs.inode name = some n) := by
  unfold rename at h
  split at h
  · cases h
  · rename_i n hn
    split_ifs at h with hshared
    · exact absurd (hfs name other n hn hshared) hne
    · rw [Option.some.injEq] at h
      subst h
      have hother : Function.update (Function.update fs.inode other (some n)) name none other =
          some n := by
        rw [Function.update_of_ne hne.symm, Function.update_self]
      refine ⟨?_, Function.update_self .., ?_, n, hn⟩
      · simp only [read, hother, hn, Option.map_some]
      · intro a b m ha hb
        simp only at ha hb
        -- a name that is linked afterwards is `other`, or was linked before
        have hold : ∀ c, Function.update (Function.update fs.inode other (some n)) name none c =
            some m → (c = other ∧ m = n) ∨ (c ≠ name ∧ fs.inode c = some m) := by
          intro c hc
          by_cases hc1 : c = name
          · rw [hc1, Function.update_self] at hc
            cases hc
          · rw [Function.update_of_ne hc1] at hc
            by_cases hc2 : c = other
            · rw [hc2, Function.update_self, Option.some.injEq] at hc
              exact Or.inl ⟨hc2, hc.symm⟩
            · rw [Function.update_of_ne hc2] at hc
              exact Or.inr ⟨hc1, hc⟩
        rcases hold a ha with ⟨ha1, ham⟩ | ⟨ha1, ha2⟩
        · rcases hold b hb with ⟨hb1, -⟩ | ⟨hb1, hb2⟩
          · rw [ha1, hb1]
          · exact absurd (hfs b name n (ham ▸ hb2) hn) hb1
        · rcases hold b hb with ⟨-, hbm⟩ | ⟨hb1, hb2⟩
          · exact absurd (hfs a name n (hbm ▸ ha2) hn) ha1
          · exact hfs a b m ha2 hb2

end FileSystem
