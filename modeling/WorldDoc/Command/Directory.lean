import WorldDoc.Command.Path
import WorldDoc.Text.Quoted

/-!
# Files by path

A `Directory` says what stands in the directory that the program runs in. Files and directories are
listed by the parts of their paths; wherever a longer path leads through there is a directory too.

A path is followed part by part. Every part but the last has to be a directory, also one that the
path leaves again by going up. Above the directory itself nothing has a known name.
-/

namespace WorldDoc.Command

/-- Why a file cannot be read. -/
inductive ReadError where
  | notFound
  | notDirectory
  | isDirectory
  | nameTooLong
  deriving DecidableEq, Repr

/-- The wording of a read error. -/
def ReadError.message (path : String) (e : ReadError) : String :=
  let reason := match e with
    | .notFound => "[Errno 2] No such file or directory"
    | .notDirectory => "[Errno 20] Not a directory"
    | .isDirectory => "[Errno 21] Is a directory"
    | .nameTooLong => "[Errno 36] File name too long"
  s!"{reason}: {Quoted.encode path}"

/-- What stands at a path. -/
inductive Entry where
  | directory
  | file (bytes : List UInt8)
  deriving DecidableEq, Repr

/-- What stands in a directory, by the parts of the paths that lead there from it. -/
structure Directory where
  entries : List (List String × Entry)
  deriving Repr

namespace Directory

/-- The directory with some entries, each given by its path. Of two at one path the later counts. -/
def ofList (entries : List (String × Entry)) : Directory :=
  ⟨(entries.map fun e => (pathParts e.1, e.2)).reverse⟩

/-- What stands at a place within a directory. The place of no parts is the directory itself. -/
def entry? (d : Directory) (place : List String) : Option Entry :=
  if place.isEmpty then some .directory
  else match d.entries.lookup place with
    | some e => some e
    | none => if d.entries.any fun e => place.isPrefixOf e.1 then some .directory else none

/-- Whether a part of a path is longer than a name may be: 255 bytes. -/
def isOverlong (part : String) : Bool := 255 < part.utf8ByteSize

/-- What comes of following the parts of a path from somewhere above the directory. -/
def followAbove (parts : List String) : ReadError :=
  match parts.dropWhile (· = "..") with
  | [] => .isDirectory
  | part :: _ => if isOverlong part then .nameTooLong else .notFound

/-- Reads the file that the parts of a path lead to from a place within the directory. -/
def follow (d : Directory) (place : List String) : List String → Except ReadError (List UInt8)
  | [] => match d.entry? place with
    | none => .error .notFound
    | some .directory => .error .isDirectory
    | some (.file bytes) => .ok bytes
  | part :: later => match d.entry? place with
    | none => .error .notFound
    | some (.file _) => .error .notDirectory
    | some .directory =>
      if isOverlong part then .error .nameTooLong
      else if part ≠ ".." then follow d (place ++ [part]) later
      else if place.isEmpty then .error (followAbove later)
      else follow d place.dropLast later

/-- Reads the file at a path. A path of 4096 bytes or more is too long whatever it leads to. -/
def read (d : Directory) (path : String) : Except ReadError (List UInt8) :=
  if 4096 ≤ path.utf8ByteSize then .error .nameTooLong
  else if path.startsWith "/" then .error (followAbove (pathParts path))
  else follow d [] (pathParts path)

end Directory

end WorldDoc.Command
