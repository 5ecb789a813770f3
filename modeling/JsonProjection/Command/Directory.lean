/-
# `JsonProjection.Command.Directory` -- a flat directory as a file system.

The simplest file system is one directory without subdirectories, a list of files.  A path names a file of it if
its last part is a name and every part before that stays in the directory: it is `.`, or empty between two slashes.
A file has no parts of its own, so `name/` and `name/.` name nothing; neither does a path that leads out of the
directory or into a subdirectory, or that is too long.  What names nothing cannot be written either; all else can,
because there is always room.
-/
import JsonProjection.Assoc
import JsonProjection.Command.FileSystem
import JsonProjection.Text.Split
import JsonProjection.Text.Whitespace

namespace JsonProjection.Command

open JsonProjection.Text (utf8Length)

/-- **A directory**: names of files and their bytes. -/
abbrev Directory := List (String × ByteArray)

namespace Directory

/-! ## Paths -/

/-- The bytes that the name of a file may have. -/
def maxName : Nat := 255

/-- The bytes that a path may have. -/
def maxPath : Nat := 4095

/-- A part of a path that does not lead anywhere else. -/
def staysHere (part : List Char) : Bool := part = [] || part = ['.']

/-- A part of a path that can name a file. -/
def isName (part : List Char) : Bool :=
  !staysHere part && part ≠ ['.', '.'] && !part.contains '\x00' && utf8Length part ≤ maxName

/-- **The name of the file that a path leads to**, whether there is such a file or not. -/
def resolve? (path : String) : Option String :=
  if path.toList.head? = some '/' ∨ maxPath < utf8Length path.toList then none
  else
    match (Text.splitAt '/' path.toList).reverse with
    | name :: before =>
      if isName name ∧ before.all staysHere then some (String.ofList name) else none
    | [] => none

/-! ## Files -/

/-- The bytes of the file that a path leads to. -/
def bytes? (directory : Directory) (path : String) : Option ByteArray :=
  (resolve? path).bind fun name => Assoc.get? name directory

/-- **The text of a file**, if there is one and its bytes are UTF-8. -/
def text? (directory : Directory) (path : String) : Option String :=
  (directory.bytes? path).bind String.fromUTF8?

/-- Why a path that names nothing is refused. -/
def noSuchFile : String := "No such file or directory (os error 2)"

/-- The directory with a file of the given bytes. -/
def put (directory : Directory) (path : String) (bytes : ByteArray) : Except String Unit × Directory :=
  match resolve? path with
  | some name => (.ok (), Assoc.set name bytes directory)
  | none => (.error noSuchFile, directory)

/-- **A flat directory as a file system.** -/
def fileSystem : FileSystem Directory where
  read directory path := (directory.bytes? path).elim (.error noSuchFile) .ok
  create directory path := directory.put path ByteArray.empty
  fill directory path bytes := directory.put path bytes

end Directory

end JsonProjection.Command
