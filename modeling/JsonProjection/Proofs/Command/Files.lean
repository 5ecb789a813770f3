/-
# `JsonProjection.Proofs.Command.Files` -- what a write may be relied on to do.

A file system is whatever its calls do.  What can be said about a write rests on what is documented of these calls
for an ordinary file: a file that cannot be opened is not touched, no call touches another file, and a file that was
filled holds what it was filled with (`Ordinary`).  Nothing is said about a file that was opened, and so emptied, and
then could not be filled.  Where that does not happen (`HasRoom`), a write does all or nothing.

A file may have several names, among them links and other spellings of its path.  They are a parameter, because a
path does not show them.  The flat directory is an example: its names are compared after they are resolved.
-/
import JsonProjection.Command.Directory

namespace JsonProjection.Command

namespace FileSystem

variable {σ : Type} {fileSystem : FileSystem σ} {files before after : σ} {path : String}
  {names : String → Prop}

/-! ## What may change -/

/-- Every file reads as it did. -/
def Unchanged (fileSystem : FileSystem σ) (before after : σ) : Prop :=
  ∀ path, fileSystem.read after path = fileSystem.read before path

/-- Every file reads as it did, the one with the given names perhaps apart. -/
def UnchangedBut (fileSystem : FileSystem σ) (names : String → Prop) (before after : σ) : Prop :=
  ∀ path, ¬names path → fileSystem.read after path = fileSystem.read before path

/-- **One file was written**: it holds exactly the bytes, and every other file reads as it did. -/
structure Wrote (fileSystem : FileSystem σ) (names : String → Prop) (before : σ) (bytes : ByteArray)
    (after : σ) : Prop where
  content : ∀ path, names path → fileSystem.read after path = .ok bytes
  others : fileSystem.UnchangedBut names before after

theorem Unchanged.refl (fileSystem : FileSystem σ) (files : σ) : fileSystem.Unchanged files files :=
  fun _ => rfl

theorem Unchanged.but (h : fileSystem.Unchanged before after) (names : String → Prop) :
    fileSystem.UnchangedBut names before after := fun path _ => h path

theorem UnchangedBut.trans {later : σ} (h : fileSystem.UnchangedBut names before after)
    (h' : fileSystem.UnchangedBut names after later) : fileSystem.UnchangedBut names before later :=
  fun path hpath => (h' path hpath).trans (h path hpath)

/-! ## What the calls are relied on to do -/

/-- **An ordinary file**, to which a path and all other `names` lead. -/
structure Ordinary (fileSystem : FileSystem σ) (files : σ) (path : String) (names : String → Prop) :
    Prop where
  /-- the path is one of the names -/
  named : names path
  /-- where opening is refused, every file is as it was -/
  refused : ∀ cause, (fileSystem.create files path).1 = .error cause →
    fileSystem.Unchanged files (fileSystem.create files path).2
  /-- opening touches no other file -/
  opened : (fileSystem.create files path).1 = .ok () →
    fileSystem.UnchangedBut names files (fileSystem.create files path).2
  /-- filling touches no other file, even if it fails half way -/
  spared : (fileSystem.create files path).1 = .ok () → ∀ bytes,
    fileSystem.UnchangedBut names (fileSystem.create files path).2
      (fileSystem.fill (fileSystem.create files path).2 path bytes).2
  /-- a file that was opened and filled holds the bytes -/
  filled : (fileSystem.create files path).1 = .ok () → ∀ bytes,
    (fileSystem.fill (fileSystem.create files path).2 path bytes).1 = .ok () →
    ∀ other, names other →
      fileSystem.read (fileSystem.fill (fileSystem.create files path).2 path bytes).2 other = .ok bytes

/-- **Room for some bytes**: if the file can be opened it can be filled with them. -/
def HasRoom (fileSystem : FileSystem σ) (files : σ) (path : String) (bytes : ByteArray) : Prop :=
  (fileSystem.create files path).1 = .ok () →
    (fileSystem.fill (fileSystem.create files path).2 path bytes).1 = .ok ()

/-! ## What a write does -/

/-- The calls of a write: opening is refused, or the file is opened and then filled. -/
theorem write_cases (fileSystem : FileSystem σ) (files : σ) (path : String) (bytes : ByteArray) :
    (∃ cause, (fileSystem.create files path).1 = .error cause ∧
      fileSystem.write files path bytes = (.error cause, (fileSystem.create files path).2)) ∨
    (fileSystem.create files path).1 = .ok () ∧
      fileSystem.write files path bytes = fileSystem.fill (fileSystem.create files path).2 path bytes := by
  unfold write
  rcases fileSystem.create files path with ⟨_ | _, opened⟩
  · exact .inl ⟨_, rfl, rfl⟩
  · exact .inr ⟨rfl, rfl⟩

namespace Ordinary

variable {bytes : ByteArray}

/-- **A write touches no other file**, whether it fails or not. -/
theorem unchangedBut_write (h : fileSystem.Ordinary files path names) (bytes : ByteArray) :
    fileSystem.UnchangedBut names files (fileSystem.write files path bytes).2 := by
  rcases fileSystem.write_cases files path bytes with ⟨cause, hrefused, hwrite⟩ | ⟨hopened, hwrite⟩
  · rw [hwrite]
    exact (h.refused cause hrefused).but names
  · rw [hwrite]
    exact (h.opened hopened).trans (h.spared hopened bytes)

/-- **A write that succeeds** leaves exactly the bytes. -/
theorem wrote_write (h : fileSystem.Ordinary files path names)
    (hok : (fileSystem.write files path bytes).1 = .ok ()) :
    fileSystem.Wrote names files bytes (fileSystem.write files path bytes).2 := by
  refine ⟨?_, h.unchangedBut_write bytes⟩
  rcases fileSystem.write_cases files path bytes with ⟨cause, -, hwrite⟩ | ⟨hopened, hwrite⟩
  · rw [hwrite] at hok
    cases hok
  · rw [hwrite] at hok ⊢
    exact h.filled hopened bytes hok

/-- **A write that fails** leaves every file as it was, if there is room. -/
theorem unchanged_write (h : fileSystem.Ordinary files path names)
    (hroom : fileSystem.HasRoom files path bytes) {cause : String}
    (hfailed : (fileSystem.write files path bytes).1 = .error cause) :
    fileSystem.Unchanged files (fileSystem.write files path bytes).2 := by
  rcases fileSystem.write_cases files path bytes with ⟨found, hrefused, hwrite⟩ | ⟨hopened, hwrite⟩
  · rw [hwrite]
    exact h.refused found hrefused
  · rw [hwrite, hroom hopened] at hfailed
    cases hfailed

end Ordinary

end FileSystem

/-! ## The flat directory -/

namespace Directory

/-- A path of a flat directory names what it resolves to. -/
def SameFile (path other : String) : Prop := resolve? other = resolve? path

instance (path other : String) : Decidable (SameFile path other) :=
  inferInstanceAs (Decidable (_ = _))

theorem unchangedBut_put (directory : Directory) (path : String) (bytes : ByteArray) :
    fileSystem.UnchangedBut (SameFile path) directory (directory.put path bytes).2 := by
  intro other hother
  have hbytes : (directory.put path bytes).2.bytes? other = directory.bytes? other := by
    unfold put bytes?
    cases hname : resolve? path with
    | none => rfl
    | some name =>
        cases hname' : resolve? other with
        | none => rfl
        | some name' =>
            have hne : name ≠ name' := by
              rintro rfl
              exact hother (hname'.trans hname.symm)
            exact Assoc.get?_set_of_ne hne bytes directory
  exact congrArg (Option.elim · (Except.error noSuchFile) Except.ok) hbytes

/-- What is put under a path that resolves is there. -/
theorem read_put {path other : String} (hsame : SameFile path other) (directory : Directory)
    {bytes : ByteArray} (hok : (directory.put path bytes).1 = .ok ()) :
    fileSystem.read (directory.put path bytes).2 other = .ok bytes := by
  unfold put at hok ⊢
  cases hname : resolve? path with
  | none =>
      rw [hname] at hok
      cases hok
  | some name =>
      have hbytes : bytes? (Assoc.set name bytes directory) other = some bytes := by
        rw [bytes?, hsame, hname, Option.bind_some, Assoc.get?_set_self]
      exact congrArg (Option.elim · (Except.error noSuchFile) Except.ok) hbytes

/-- What a path of a directory cannot take changes nothing. -/
theorem put_of_error {directory : Directory} {path : String} {bytes : ByteArray} {cause : String}
    (h : (directory.put path bytes).1 = .error cause) : (directory.put path bytes).2 = directory := by
  unfold put at h ⊢
  cases hname : resolve? path with
  | none => rfl
  | some name =>
      rw [hname] at h
      cases h

/-- **Every file of a flat directory is ordinary.** -/
theorem ordinary (directory : Directory) (path : String) :
    fileSystem.Ordinary directory path (SameFile path) where
  named := rfl
  refused := by
    intro cause hrefused
    have hsame : (fileSystem.create directory path).2 = directory := put_of_error hrefused
    rw [hsame]
    exact .refl fileSystem directory
  opened _ := unchangedBut_put directory path ByteArray.empty
  spared _ := unchangedBut_put _ path
  filled _ _ hfilled _ hother := read_put hother _ hfilled

/-- **A flat directory has room.** -/
theorem hasRoom (directory : Directory) (path : String) (bytes : ByteArray) :
    fileSystem.HasRoom directory path bytes := by
  intro hopened
  have hput : (directory.put path ByteArray.empty).1 = .ok () := hopened
  show (put (directory.put path ByteArray.empty).2 path bytes).1 = .ok ()
  unfold put at hput ⊢
  cases hname : resolve? path with
  | none =>
      rw [hname] at hput
      cases hput
  | some name => rfl

end Directory

end JsonProjection.Command
