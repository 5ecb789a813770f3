/-
# `JsonProjection.Command.FileSystem` -- the calls that reach files.

Which file a path leads to, and whether it can be read or written, is up to the operating system.  A file system
is given by what its calls do to a state of the files, whatever that state is; a call that is refused gives the
cause in words.

A file is written in two calls, and each can be refused: it is opened, which makes it or empties it, and then it
is filled.  What the second leaves behind where it is refused is up to the file system, too.
-/
namespace JsonProjection.Command

/-- **A file system** over states of the files. -/
structure FileSystem (σ : Type) where
  /-- all bytes of the file that a path leads to -/
  read : σ → String → Except String ByteArray
  /-- opens the file that a path leads to, empty, and makes it if there is none -/
  create : σ → String → Except String Unit × σ
  /-- writes bytes to the file that was opened at a path -/
  fill : σ → String → ByteArray → Except String Unit × σ

variable {σ : Type}

/-- **Writing a whole file**: what was there before is lost. -/
def FileSystem.write (fileSystem : FileSystem σ) (files : σ) (path : String) (bytes : ByteArray) :
    Except String Unit × σ :=
  match fileSystem.create files path with
  | (.error cause, after) => (.error cause, after)
  | (.ok _, opened) => fileSystem.fill opened path bytes

end JsonProjection.Command
