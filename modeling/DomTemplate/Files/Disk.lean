import DomTemplate.Files.Access

/-!
# A file system as a value

A disk maps places to files and directories.  A place is given by the names from the root of the
disk.  Paths are resolved part by part: a dot stays, two dots go up, and every part but the last has
to be a directory.  Names and paths are limited in length.

A disk has no links, no permissions and no faults of its own: every file can be read and replaced,
there is always room for one more, and an operation fails only because of what its path names.
-/

namespace DomTemplate

inductive Entry where
  | directory
  | file (content : ByteArray)

/-- The names from the root of a disk down to an entry. -/
abbrev Location := Array (List UInt8)

structure Disk where
  entries : List (Location × Entry)
  /-- the place of the working directory -/
  workingDirectory : Location

namespace Disk

/-- The place under names that are texts. -/
def place (names : List String) : Location :=
  (names.map Text.bytes).toArray

/-- What stands at a place.  The root is always a directory. -/
def at? (disk : Disk) (place : Location) : Option Entry :=
  if place.isEmpty then some .directory else disk.entries.lookup place

/-- Puts an entry at a place, instead of what was there. -/
def put (disk : Disk) (place : Location) (entry : Entry) : Disk :=
  { disk with entries := (place, entry) :: disk.entries.filter (·.1 != place) }

def isDirectoryAt (disk : Disk) (place : Location) : Bool :=
  match disk.at? place with
  | some .directory => true
  | _ => false

/-- The most bytes that a name may have. -/
def nameLimit : Nat := 255

/-- The most bytes that a path may have. -/
def pathLimit : Nat := 4095

/-- The place of a name in a directory, whether or not something is there. -/
def placeIn (directory : Location) (name : List UInt8) : Except FileFault Location :=
  if nameLimit < name.length then .error .nameTooLong
  else .ok (directory.push name)

/-- Follows one part of a path from a place, which has to be a directory. -/
def step (disk : Disk) (place : Location) (part : List UInt8) : Except FileFault Location :=
  if !disk.isDirectoryAt place then .error .notADirectory
  else if Path.isIdle part then .ok place
  else if part = [Path.dot, Path.dot] then .ok place.pop
  else do
    let next ← placeIn place part
    if (disk.at? next).isSome then .ok next else .error .notFound

/-- Where a path starts: at the root if it is absolute. -/
def start (disk : Disk) (path : Path) : Location :=
  if path.isAbsolute then #[] else disk.workingDirectory

/-- The parts of a path, unless its bytes alone show that it names nothing. -/
def parts (path : Path) : Except FileFault (List (List UInt8)) :=
  if path.bytes = [] then .error .notFound
  else if path.bytes.contains 0 then .error .nullInName
  else if pathLimit < path.bytes.length then .error .nameTooLong
  else .ok (Text.pieces Path.slash path.bytes)

/-- The place of a path, if something is there. -/
def resolve (disk : Disk) (path : Path) : Except FileFault Location := do
  (← parts path).foldlM disk.step (disk.start path)

/-- What a path names for an operation that may make it: an existing directory by its very form, or
a name in a directory.  `slashed` tells that a slash follows the name. -/
inductive Spot where
  | fixed
  | named (directory : Location) (name : List UInt8) (slashed : Bool)

/-- The place of a path whose last part need not exist. -/
def spot (disk : Disk) (path : Path) : Except FileFault Spot := do
  let parts ← parts path
  match parts.reverse.dropWhile (· = []) with
  | [] => .ok .fixed
  | last :: above =>
    let directory ← above.reverse.foldlM disk.step (disk.start path)
    if !disk.isDirectoryAt directory then .error .notADirectory
    else if last = [Path.dot] || last = [Path.dot, Path.dot] then .ok .fixed
    else .ok (.named directory last (parts.getLast? = some []))

def isPresent (disk : Disk) (path : Path) : Bool :=
  (disk.resolve path).isOk

def isDirectory (disk : Disk) (path : Path) : Bool :=
  match disk.resolve path with
  | .ok place => disk.isDirectoryAt place
  | .error _ => false

def readText (disk : Disk) (path : Path) : Except FileFault String := do
  let place ← disk.resolve path
  match disk.at? place with
  | some (.file content) =>
    match String.fromUTF8? content with
    | some text => .ok text
    | none => .error .notText
  | some .directory => .error .isADirectory
  | none => .error .notFound

def writeText (disk : Disk) (path : Path) (text : String) : Except FileFault Disk := do
  match ← disk.spot path with
  | .fixed => .error .isADirectory
  | .named directory name slashed =>
    if slashed then .error .isADirectory
    else
      let place ← placeIn directory name
      if disk.isDirectoryAt place then .error .isADirectory
      else .ok (disk.put place (.file text.toUTF8))

/-- Makes one directory. -/
def createDirectory (disk : Disk) (path : Path) : Except FileFault Disk := do
  match ← disk.spot path with
  | .fixed => .error .alreadyExists
  | .named directory name _ =>
    let place ← placeIn directory name
    if (disk.at? place).isSome then .error .alreadyExists
    else .ok (disk.put place .directory)

/-- Makes the first of the given directories, each of which lies in the next.  The missing ones
above are made first, and stay even if a later one cannot be made. -/
def createFrom (disk : Disk) : List Path → Except FileFault Unit × Disk
  | [] => (.error .wholeTree, disk)
  | path :: above =>
    if path.bytes = [] then (.ok (), disk)
    else
      match disk.createDirectory path with
      | .ok disk => (.ok (), disk)
      | .error .notFound =>
        match disk.createFrom above with
        | (.error fault, disk) => (.error fault, disk)
        | (.ok _, disk) =>
          match disk.createDirectory path with
          | .ok disk => (.ok (), disk)
          | .error fault => (if disk.isDirectory path then .ok () else .error fault, disk)
      | .error fault => (if disk.isDirectory path then .ok () else .error fault, disk)

/-- Makes a directory and those above it that are missing. -/
def createDirectories (disk : Disk) (path : Path) : Except FileFault Unit × Disk :=
  disk.createFrom path.ancestors

/-- Puts an entry below a directory that is there, with the directories in between. -/
def install (disk : Disk) (base : Location) (names : List (List UInt8)) (entry : Entry) :
    Disk :=
  match names with
  | [] => disk
  | [name] => disk.put (base.push name) entry
  | name :: rest =>
    let next := base.push name
    (if disk.isDirectoryAt next then disk else disk.put next .directory).install next rest entry

/-- A disk with nothing on it but an empty working directory. -/
def empty (name : List UInt8) : Disk :=
  ⟨[(#[name], .directory)], #[name]⟩

/-- The absolute path of the working directory. -/
def workingPath (disk : Disk) : Path :=
  ⟨Path.slash :: Text.join Path.slash disk.workingDirectory.toList⟩

end Disk

instance : FileAccess (StateM Disk) where
  readText path := do return (← get).readText path
  writeText path text := do
    match (← get).writeText path text with
    | .ok disk => set disk; return .ok ()
    | .error fault => return .error fault
  createDirectories path := do
    let (result, disk) := (← get).createDirectories path
    set disk
    return result
  isPresent path := do return (← get).isPresent path
  isDirectory path := do return (← get).isDirectory path
  workingDirectory := do return (← get).workingPath

end DomTemplate
