import SourceGen.Text.Basic
import SourceGen.Text.Lines

/-!
# Directories

Text files as they are seen from one directory. Paths are read as a file system reads them: empty
segments and dots do nothing, two dots go up, and every other segment but the last must lead to a
folder. Around the directory there are the folders of the system, which hold nothing at first.

## Main definitions

* `Place`: where a file or a folder is.
* `Directory`: files by place.
* `Directory.locate`: what a path leads to.
* `Directory.read`, `Directory.write`: the content of a file.
-/

namespace SourceGen

/-- Why a file cannot be read, written or started. -/
inductive AccessError where
  | notFound | permissionDenied | notDirectory | isDirectory | nameTooLong
  /-- A path contains a NUL byte. -/
  | nulInPath
  /-- A program or one of its arguments contains a NUL byte. -/
  | nulInArgument
  | argumentTooLong
  deriving DecidableEq, Repr

/-- The words of the operating system for a cause. -/
def AccessError.message : AccessError → String
  | notFound => "No such file or directory (os error 2)"
  | permissionDenied => "Permission denied (os error 13)"
  | notDirectory => "Not a directory (os error 20)"
  | isDirectory => "Is a directory (os error 21)"
  | nameTooLong => "File name too long (os error 36)"
  | nulInPath => "file name contained an unexpected NUL byte"
  | nulInArgument => "nul byte found in provided data"
  | argumentTooLong => "Argument list too long (os error 7)"

/-- Where something is: its name, then the names of the folders around it, the innermost first. The
root has no name. -/
abbrev Place := List String

/-- The path of a place from the root. -/
def Place.path (p : Place) : String :=
  "/" ++ Text.join "/" p.reverse

/-- What a path leads to. -/
inductive Location where
  | folder
  /-- A file, which need not exist. -/
  | file (place : Place)
  deriving DecidableEq, Repr

/-- Files by place. -/
structure Directory where
  /-- Where relative paths start. -/
  home : Place := ["work", "tmp"]
  files : List (Place × String) := []
  deriving DecidableEq, Repr

namespace Directory

/-- The greatest length of a name in bytes. -/
def maxNameLength : Nat :=
  255

/-- The greatest length of a path in bytes. -/
def maxPathLength : Nat :=
  4095

/-- The folders in the root of the file system. -/
def systemFolders : List String :=
  ["bin", "boot", "dev", "etc", "home", "lib", "lib64", "media", "mnt", "opt", "proc", "root",
    "run", "sbin", "srv", "sys", "tmp", "usr", "var"]

/-- The file that is always empty. -/
def nullDevice : Place :=
  ["null", "dev"]

/-- The segment stays where it is. -/
def isIdle (segment : String) : Bool :=
  segment == "" || segment == "."

/-- The content of a file. -/
def content? (d : Directory) (place : Place) : Option String :=
  if place == nullDevice then some "" else d.files.lookup place

/-- There is a folder: one of the system, or one around the directory or a file. -/
def isFolder (d : Directory) (place : Place) : Bool :=
  systemFolders.any (place == [·]) || place.isSuffixOf d.home ||
    d.files.any (place.isSuffixOf ·.1.tail)

/-- Where the segments of a path lead from a folder. A slash at the end asks for a folder, and
folders are not created. -/
def walk (d : Directory) (creating : Bool) (place : Place) :
    List String → Except AccessError Location
  | [] => .ok .folder
  | segment :: rest =>
    if isIdle segment then d.walk creating place rest
    else if segment == ".." then d.walk creating place.tail rest
    else if creating && !rest.isEmpty && rest.all (· == "") then .error .isDirectory
    else if maxNameLength < segment.utf8ByteSize then .error .nameTooLong
    else if d.isFolder (segment :: place) then d.walk creating (segment :: place) rest
    else if rest.isEmpty then .ok (.file (segment :: place))
    else if (d.content? (segment :: place)).isSome then .error .notDirectory
    else .error .notFound

/-- Where a path leads, for a file that is read or one that may be created. -/
def locate (d : Directory) (creating : Bool) (path : String) : Except AccessError Location :=
  if Text.hasChar '\x00' path then .error .nulInPath
  else if maxPathLength < path.utf8ByteSize then .error .nameTooLong
  else if path.isEmpty then .error .notFound
  else
    d.walk creating (if Text.startsWith path "/" then [] else d.home) (Text.splitOn '/' path)

/-- The content of the file at a path. -/
def read (d : Directory) (path : String) : Except AccessError String :=
  match d.locate false path with
  | .ok (.file place) =>
    match d.content? place with
    | some text => .ok text
    | none => .error .notFound
  | .ok .folder => .error .isDirectory
  | .error e => .error e

/-- The directory with a file of the given content. -/
def insert (d : Directory) (place : Place) (text : String) : Directory :=
  { d with files := (place, text) :: d.files.filter (·.1 != place) }

/-- The directory after the file at a path was written. -/
def write (d : Directory) (path text : String) : Except AccessError Directory :=
  match d.locate true path with
  | .ok (.file place) => .ok (if place == nullDevice then d else d.insert place text)
  | .ok .folder => .error .isDirectory
  | .error e => .error e

/-- A directory that holds the given files by name. Folders on the way to them are made. -/
def ofFiles (files : List (String × String)) : Directory :=
  files.foldl (fun d (name, text) =>
    d.insert (((Text.splitOn '/' name).filter (!isIdle ·)).reverse ++ d.home) text) {}

/-- What was written at a place is its content. -/
theorem lookup_insert (d : Directory) (place : Place) (text : String) :
    (d.insert place text).files.lookup place = some text := by
  simp [insert]

/-- The path of a name in the directory from the root; an absolute path stays as it is. -/
def pathTo (d : Directory) (name : String) : String :=
  if Text.startsWith name "/" then name else d.home.path ++ "/" ++ name

end Directory

end SourceGen
