import TapeLang.Stream
import TapeLang.Text.Quoted

/-!
# Files by path

What `bfvm.cli` asks of the system when `load_file` and `cmd_run` open a path: which file or device
it leads to, why it cannot be opened, and what writing there and flushing it raise.

* `Target`, `Sink` — what a path leads to, and how it takes what is written; `Sink.full` has no
  room.
* `Files` — the targets of paths, for reading and for writing.
* `FileTree` — a folder with its files, and how a path is followed in it. Beyond the folder are the
  folders that every system has, empty but for three devices.
* `normalPath` — a path without the parts that lead nowhere, as `load_file` opens it.
-/

namespace TapeLang.Command

/-- Why a path cannot be opened. -/
inductive FileError.Cause
  | notFound | notDirectory | isDirectory | nameTooLong
  /-- The path holds a NUL character. -/
  | nul
  /-- The system refuses for another reason. -/
  | refused (errno : Nat) (what : String)
  deriving DecidableEq, Repr

structure FileError where
  cause : FileError.Cause
  path : String
  deriving DecidableEq, Repr

def FileError.system (errno : Nat) (what path : String) : String :=
  "io error: [Errno " ++ toString errno ++ "] " ++ what ++ ": " ++ Text.quoted path

def FileError.message (e : FileError) : String :=
  match e.cause with
  | .notFound => "File not found: " ++ e.path
  | .notDirectory => system 20 "Not a directory" e.path
  | .isDirectory => system 21 "Is a directory" e.path
  | .nameTooLong => system 36 "File name too long" e.path
  | .nul => "Error: embedded null byte"
  | .refused errno what => system errno what e.path

def pathParts (path : String) : List String :=
  (path.toList.splitOn '/').map String.ofList

/-! ## A folder -/

inductive Device
  /-- Nothing is read there, or what was there when it was opened. -/
  | null
  /-- Zero bytes without end. -/
  | zero
  /-- Zero bytes without end, and no room for what is written. -/
  | full
  deriving DecidableEq, Repr

inductive Target
  /-- A file. It is known by one name, whatever path leads to it. -/
  | file (name : String)
  /-- A device, which keeps nothing of what is written to it. -/
  | device (d : Device)
  deriving DecidableEq, Repr

/-- Whether what is read there never ends. -/
def Target.endless : Target → Bool
  | .file _ | .device .null => false
  | .device .zero | .device .full => true

/-! ## Outputs -/

def blockSize : Nat := 4096

/-- How an output takes what is written to it. -/
structure Sink where
  /-- What write calls raise, by the number of the call. -/
  plan : Nat → Option StreamFault := fun _ => none
  /-- What the output raises in the end, when it is flushed and perhaps closed, by the number of
  bytes written. -/
  flush : Nat → Option StreamFault := fun _ => none

def noSpace : StreamFault :=
  ⟨.system (some 28), "No space left on device"⟩

/-- An output without room. A block of bytes waits before the first of them has to be stored. -/
def Sink.full : Sink where
  plan := Output.failingFrom blockSize false noSpace
  flush count := if 0 < count then some noSpace else none

def Target.sink : Target → Sink
  | .device .full => .full
  | _ => {}

/-! ## Paths -/

structure Files where
  /-- What a path leads to, with the bytes that it holds. -/
  find : String → Except FileError (Target × List UInt8)
  /-- What an output path opens. -/
  create : String → Except FileError Target
  sink : Target → Sink := fun _ => {}

/-- A folder: its folders and files by the names that lead to them. -/
structure FileTree where
  directories : List (List String) := []
  files : List (List String × List UInt8) := []
  /-- The names that lead from the root to the folder. -/
  location : List String := ["tmp", "work"]
  deriving DecidableEq, Repr

/-- A place is known by the names that lead to it from the root. -/
abbrev Place := List String

inductive Entry
  | directory
  | file (contents : List UInt8)
  | device (d : Device)
  | absent
  deriving DecidableEq, Repr

namespace FileTree

/-! ## Following paths -/

def systemFolders : List String :=
  ["bin", "boot", "dev", "etc", "home", "lib", "media", "mnt", "opt", "proc", "root", "run", "sbin",
    "srv", "sys",
    "tmp", "usr", "var"]

/-- The names that lead from the folder to a place within it. -/
def inside? (t : FileTree) (p : Place) : Option (List String) :=
  if t.location.isPrefixOf p then some (p.drop t.location.length) else none

/-- What the names from the folder lead to. The folder itself, and every folder that a file lies in,
exists. -/
def entryWithin (t : FileTree) (names : List String) : Entry :=
  match t.files.lookup names with
  | some contents => .file contents
  | none =>
    if names.isEmpty || t.directories.any names.isPrefixOf ||
      t.files.any (fun f => names.isPrefixOf f.1) then
      .directory
    else .absent

def entryBeyond (t : FileTree) (p : Place) : Entry :=
  match p with
  | ["dev", "null"] => .device .null
  | ["dev", "zero"] => .device .zero
  | ["dev", "full"] => .device .full
  | [name] => if systemFolders.contains name || p.isPrefixOf t.location then .directory else .absent
  | _ => if p.isPrefixOf t.location then .directory else .absent

def entry (t : FileTree) (p : Place) : Entry :=
  match t.inside? p with
  | some names => t.entryWithin names
  | none => t.entryBeyond p

/-- Where `name` leads from a place. The root lies in itself. -/
def follow (t : FileTree) (p : Place) (name : String) : Except FileError.Cause Place :=
  match t.entry p with
  | .file _ | .device _ => .error .notDirectory
  | .absent => .error .notFound
  | .directory =>
    if name = "" || name = "." then .ok p
    else if 255 < name.utf8ByteSize then .error .nameTooLong
    else if name = ".." then .ok p.dropLast
    else .ok (p ++ [name])

def followAll (t : FileTree) (p : Place) (names : List String) : Except FileError.Cause Place :=
  names.foldlM t.follow p

def origin (t : FileTree) (path : String) : Place :=
  if path.toList.head? = some '/' then [] else t.location

def checkPath (path : String) : Except FileError.Cause Unit :=
  if '\x00' ∈ path.toList then .error .nul
  else if path.isEmpty then .error .notFound
  else if 4096 ≤ path.utf8ByteSize then .error .nameTooLong
  else .ok ()

/-- The name that the file at a place is known by. Only beyond the folder it begins with a slash. -/
def nameAt (t : FileTree) (p : Place) : String :=
  match t.inside? p with
  | some names => "/".intercalate names
  | none => "/" ++ "/".intercalate p

/-! ## Opening files -/

def find (t : FileTree) (path : String) : Except FileError.Cause (Target × List UInt8) := do
  checkPath path
  let p ← t.followAll (t.origin path) (pathParts path)
  match t.entry p with
  | .file contents => return (.file (t.nameAt p), contents)
  | .device d => return (.device d, [])
  | .directory => .error .isDirectory
  | .absent => .error .notFound

/-- What a path leads to, to be written. A file need not exist, but what it would lie in does. A
path that ends with a slash can only mean a folder. -/
def create (t : FileTree) (path : String) : Except FileError.Cause Target := do
  checkPath path
  if path.toList.getLast? = some '/' then
    let names := ((pathParts path).reverse.dropWhile (·.isEmpty)).reverse
    let p ← t.followAll (t.origin path) names.dropLast
    discard (t.follow p "")
    .error .isDirectory
  else
    let p ← t.followAll (t.origin path) (pathParts path)
    match t.entry p with
    | .directory => .error .isDirectory
    | .device d => return .device d
    | _ => return .file (t.nameAt p)

def toFiles (t : FileTree) : Files where
  find path := (t.find path).mapError (⟨·, path⟩)
  create path := (t.create path).mapError (⟨·, path⟩)
  sink := Target.sink

end FileTree

/-- A path without empty parts and parts that stay in place. A path that leads nowhere is a
point. -/
def normalPath (path : String) : String :=
  let slashes := (path.toList.takeWhile (· = '/')).length
  let root := if slashes = 2 then "//" else if slashes = 0 then "" else "/"
  let text := root ++ "/".intercalate ((pathParts path).filter fun name => name != "" &&
    name != ".")
  if text.isEmpty then "." else text

end TapeLang.Command
