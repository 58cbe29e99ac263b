import GrantCompiler.OrderedMap

/-!
# Files

A run reads its inputs from files and may leave one behind.  `FileSystem` is what it finds, as a
value: what stands at each place, and the place where relative paths start.  Reading answers with
the text of a file, `create` with the target that a path leads to, and both with the reason why not.

A path is followed segment by segment, and every segment needs a folder to start from.  `.` and an
empty segment stay there, `..` goes up, and from the root it stays at the root.  A path that is to
be created may not end in a slash, whatever stands there: only a folder could be meant.

Permissions and links are left out: whatever stands at a place may be read and written, and no two
places are one.  So is what comes into a run by other ways than files (see `standardSinks`).
-/

set_option autoImplicit false

namespace GrantCompiler

/-- Why a file could not be read or created. -/
inductive FileFailure
  | notFound
  | notDirectory
  | isDirectory
  | nameTooLong
  /-- The bytes are no UTF-8. -/
  | notText
  | other (text : String)
deriving DecidableEq

/-- What the system says of a failure. -/
def FileFailure.message : FileFailure → String
  | notFound => "No such file or directory (os error 2)"
  | notDirectory => "Not a directory (os error 20)"
  | isDirectory => "Is a directory (os error 21)"
  | nameTooLong => "File name too long (os error 36)"
  | notText => "stream did not contain valid UTF-8"
  | other text => text

/-- A file that is empty to a reader and keeps nothing of what is written to it. -/
inductive Sink
  /-- Takes everything. -/
  | nowhere
  /-- Takes nothing. -/
  | full
  /-- Hands everything on to standard output. -/
  | output
deriving DecidableEq

/-- What can stand at a place. -/
inductive Entry
  | file (content : ByteArray)
  | sink (kind : Sink)
  | folder

/-- The names on the way down from the root. -/
abbrev Place := List String

/-- What a run finds.  Places that have no entry are free. -/
structure FileSystem where
  entries : OrderedMap Place Entry
  /-- Where relative paths start. -/
  home : Place

namespace FileSystem

/-- Folders that every system has. -/
def standardFolders : List Place :=
  [["dev"], ["dev", "fd"], ["etc"], ["home"], ["opt"], ["root"], ["tmp"], ["usr"], ["var"]]

/-- Devices that every system has; of the streams of a run only its output is kept apart.  All of
them read as empty files.  That is so of `/dev/null`; but standard input, under any of its names,
holds what the caller gives it, and reading `/dev/zero` or `/dev/full` never ends. -/
def standardSinks : List (Place × Sink) := [
  (["dev", "fd", "0"], .nowhere),
  (["dev", "fd", "1"], .output),
  (["dev", "fd", "2"], .nowhere),
  (["dev", "full"], .full),
  (["dev", "null"], .nowhere),
  (["dev", "stderr"], .nowhere),
  (["dev", "stdin"], .nowhere),
  (["dev", "stdout"], .output),
  (["dev", "zero"], .nowhere)]

/-- A system with nothing of its own but an empty folder to work in. -/
def initial : FileSystem where
  entries := .ofList (
    (["tmp", "work"], .folder) :: standardFolders.map (·, .folder) ++
      standardSinks.map fun (place, kind) => (place, .sink kind))
  home := ["tmp", "work"]

/-- Puts an entry at a place, over what stands there. -/
def insert (fs : FileSystem) (place : Place) (entry : Entry) : FileSystem :=
  { fs with entries := fs.entries.insert place entry }

/-- What stands at a place; the root is always there. -/
def entryAt (fs : FileSystem) : Place → Option Entry
  | [] => some .folder
  | place => fs.entries.get? place

/-! ## Paths -/

/-- The bytes that a path may have. -/
def longestPath : Nat := 4095

/-- The bytes that one segment of a path may have. -/
def longestName : Nat := 255

/-- What stands between the slashes of a path: one segment more than there are slashes. -/
def splitSlashes : List Char → List (List Char)
  | [] => [[]]
  | c :: rest =>
    if c = '/' then [] :: splitSlashes rest
    else
      match splitSlashes rest with
      | [] => [[c]]
      | segment :: segments => (c :: segment) :: segments

/-- The segments of a path that is neither empty nor too long. -/
def segments (path : String) : Except FileFailure (List String) :=
  if path.isEmpty then .error .notFound
  else if longestPath < path.utf8ByteSize then .error .nameTooLong
  else .ok ((splitSlashes path.toList).map String.ofList)

/-- Where a path starts: one that begins with a slash starts at the root. -/
def origin (fs : FileSystem) : List String → Place
  | "" :: _ => []
  | _ => fs.home

/-- Follows segments from a place that has been reached, which has to be a folder to go on. -/
def walk (fs : FileSystem) (place : Place) : List String → Except FileFailure Place
  | [] => .ok place
  | segment :: rest =>
    match fs.entryAt place with
    | none => .error .notFound
    | some (.file _) | some (.sink _) => .error .notDirectory
    | some .folder =>
      if segment = "" ∨ segment = "." then fs.walk place rest
      else if segment = ".." then fs.walk place.dropLast rest
      else if longestName < segment.utf8ByteSize then .error .nameTooLong
      else fs.walk (place ++ [segment]) rest

/-! ## Reading -/

/-- The bytes of a file. -/
def readBytes (fs : FileSystem) (path : String) : Except FileFailure ByteArray := do
  let segments ← segments path
  match fs.entryAt (← fs.walk (fs.origin segments) segments) with
  | none => throw .notFound
  | some .folder => throw .isDirectory
  | some (.sink _) => return .empty
  | some (.file content) => return content

/-- The text of a file. -/
def readText (fs : FileSystem) (path : String) : Except FileFailure String := do
  match String.fromUTF8? (← fs.readBytes path) with
  | none => throw .notText
  | some text => return text

/-! ## Creating -/

/-- What is written to: a place for a file of its own, or a device. -/
inductive Target
  | file (place : Place)
  | sink (kind : Sink)
deriving DecidableEq

/-- The segments above the last one that is not empty. -/
def parentSegments (segments : List String) : List String :=
  ((segments.reverse.dropWhile (· == "")).drop 1).reverse

/-- What a path leads to that is to be written to. -/
def create (fs : FileSystem) (path : String) : Except FileFailure Target := do
  let segments ← segments path
  if segments.getLast? = some "" then
    let _ ← fs.walk (fs.origin segments) (parentSegments segments ++ ["."])
    throw .isDirectory
  else
    let place ← fs.walk (fs.origin segments) segments
    match fs.entryAt place with
    | some .folder => throw .isDirectory
    | some (.sink kind) => return .sink kind
    | some (.file _) | none => return .file place

/-- Replaces what stands at a place with a file of the given text. -/
def write (fs : FileSystem) (place : Place) (text : String) : FileSystem :=
  fs.insert place (.file text.toUTF8)

end FileSystem

end GrantCompiler
