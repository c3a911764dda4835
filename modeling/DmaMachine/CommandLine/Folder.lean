import DmaMachine.CommandLine.Shell

/-!
# A folder to work in

The least surroundings that a program can run in: a folder of files, with no folder in it and
others above it, two outputs, and a clock that stands still.

A path leads through folders, named by all its parts but the last, to a file.  `Folder.resolve`
finds the file's *address*: its name behind the way to its folder, which is `/` for the topmost
one, `../` for each step up from the working one, and nothing for that itself.
-/

namespace DmaMachine

structure Folder where
  /-- Files by their address. -/
  files : List (String × ByteArray) := []
  time : Timestamp := ⟨0, 0⟩
  /-- Lines on the output, the latest first. -/
  printed : List String := []
  /-- Lines on the output for errors, the latest first. -/
  warned : List String := []

namespace Folder

def find? (address : String) (f : Folder) : Option ByteArray := f.files.lookup address

/-- The most bytes that a path can have. -/
def longestPath : Nat := 4095

/-- The most bytes that a name can have. -/
def longestName : Nat := 255

def isTooLong (name : String) : Bool := longestName < name.utf8ByteSize

/-- What is wrong with looking for a folder of this name, as there is none. -/
def noFolder (way name : String) (f : Folder) : FileFault :=
  if isTooLong name then .nameTooLong
  else if (f.find? (way ++ name)).isSome then .notFolder
  else .notFound

/-- The way that parts of a path lead on from a folder. -/
def follow (f : Folder) : String → List String → Except FileFault String
  | way, [] => .ok way
  | way, part :: parts =>
      if part = "." then follow f way parts
      else if part = ".." then follow f (if way = "/" then way else way ++ "../") parts
      else .error (f.noFolder way part)

/-- The address of the file that a path names.  A path that ends in a slash names a folder: one
that is to be written cannot be, and one that is to be read is looked for. -/
def resolve (path : String) (f : Folder) (toWrite : Bool) : Except FileFault String :=
  let parts := (path.splitOn "/").filter (· ≠ "")
  if path.toList.contains '\x00' then .error .nulInPath
  else if path = "" then .error .notFound
  else if longestPath < path.utf8ByteSize then .error .nameTooLong
  else
    match f.follow (if path.startsWith "/" then "/" else "") parts.dropLast, parts.getLast? with
    | .error fault, _ => .error fault
    | .ok _, none => .error .isFolder
    | .ok way, some name =>
        if name = "." ∨ name = ".." then .error .isFolder
        else if path.endsWith "/" then .error (if toWrite then .isFolder else f.noFolder way name)
        else if isTooLong name then .error .nameTooLong
        else .ok (way ++ name)

def read (path : String) (f : Folder) : Except FileFault ByteArray :=
  match f.resolve path false with
  | .error fault => .error fault
  | .ok address =>
      match f.find? address with
      | some bytes => .ok bytes
      | none => .error .notFound

def write (path : String) (bytes : ByteArray) (f : Folder) : Except FileFault Folder :=
  match f.resolve path true with
  | .error fault => .error fault
  | .ok address =>
      .ok { f with files := (address, bytes) :: f.files.filter fun file => file.1 ≠ address }

/-- Carries out a call. -/
def perform : (c : Shell.Call) → Run Folder c.Answer
  | .readFile path => fun f => some ((f.read path).mapError .file, f)
  | .writeFile path bytes => fun f =>
      match f.write path bytes.toByteArray with
      | .ok f => some (.ok (), f)
      | .error fault => some (.error (.file fault), f)
  | .clock => fun f => some (.ok f.time, f)
  | .print line => fun f => some (.ok (), { f with printed := line :: f.printed })
  | .warn line => fun f => some (.ok (), { f with warned := line :: f.warned })

end Folder

end DmaMachine
